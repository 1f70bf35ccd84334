import Arith.Files.FileTree

/-!
# Why files are not read

A path that holds a character that no path may have is refused for it, and so is one that is too
long. Otherwise a file is not read because of what stands on its way or in its place, which is the
same to a reader as if nothing were there.
-/

namespace Arith

namespace FileTree

variable {t : FileTree} {p : Path} {f : FileFault}

/-- The faults of a path that may be followed, but leads to no place. -/
def wayFaults : List FileFault := [.notFound, .notADirectory, .nameTooLong]

theorem mem_wayFaults_of_enter {location : Location} {name : List Char}
    (h : t.enter location name = .error f) : f ∈ wayFaults := by
  unfold enter at h
  cases hfind : t.find? location with
  | none =>
    rw [hfind] at h
    cases h
    simp [wayFaults]
  | some entry =>
    rw [hfind] at h
    cases entry with
    | directory =>
      dsimp only at h
      split at h <;> cases h
      simp [wayFaults]
    | _ =>
      cases h
      simp [wayFaults]

theorem mem_wayFaults_of_enters {names : List (List Char)} {location : Location}
    (h : names.foldlM t.enter location = .error f) : f ∈ wayFaults := by
  induction names generalizing location with
  | nil => cases h
  | cons name names ih =>
    rw [List.foldlM_cons] at h
    cases henter : t.enter location name with
    | error g =>
      rw [henter] at h
      cases h
      exact mem_wayFaults_of_enter henter
    | ok next =>
      rw [henter] at h
      exact ih h

/-- A path is not followed because of a character in it, because it is too long, or because of what
stands on its way. -/
theorem cases_of_follow (h : t.follow p = .error f) :
    (f = .badCharacter ∧ '\x00' ∈ p.toText) ∨ ('\x00' ∉ p.toText ∧ f ∈ wayFaults) := by
  unfold follow at h
  split at h
  next hbad =>
    cases h
    exact Or.inl ⟨rfl, List.contains_iff_mem.1 hbad⟩
  next hgood =>
    refine Or.inr ⟨fun hmem => hgood (List.contains_iff_mem.2 hmem), ?_⟩
    split at h
    · cases h
      simp [wayFaults]
    · exact mem_wayFaults_of_enters h

/-- A file is not read because of its path, or because a directory stands there. -/
theorem cases_of_read (h : t.read p = .error f) :
    (f = .badCharacter ∧ '\x00' ∈ p.toText) ∨
      ('\x00' ∉ p.toText ∧ f ∈ FileFault.isADirectory :: wayFaults) := by
  unfold read at h
  cases hfollow : t.follow p with
  | error g =>
    rw [hfollow] at h
    cases h
    rcases cases_of_follow hfollow with hbad | ⟨hgood, hway⟩
    · exact Or.inl hbad
    · exact Or.inr ⟨hgood, List.mem_cons_of_mem _ hway⟩
  | ok location =>
    have hgood : '\x00' ∉ p.toText := by
      intro hmem
      rw [follow, if_pos (List.contains_iff_mem.2 hmem)] at hfollow
      cases hfollow
    refine Or.inr ⟨hgood, ?_⟩
    simp only [hfollow, bind, Except.bind] at h
    split at h <;> cases h
    · simp [wayFaults]
    · simp [wayFaults]

/-- A path with a character that no path may have is refused for it. -/
theorem read_of_badCharacter (h : '\x00' ∈ p.toText) : t.read p = .error .badCharacter := by
  unfold read follow
  rw [if_pos (List.contains_iff_mem.2 h)]
  rfl

/-- A file that cannot be read is absent, or its path is too long. -/
theorem eq_nameTooLong_of_read (h : t.read p = .error f) (habsent : f.isAbsence = false) :
    f = .nameTooLong := by
  rcases cases_of_read h with ⟨rfl, -⟩ | ⟨-, hmem⟩
  · cases habsent
  · simp only [wayFaults, List.mem_cons, List.not_mem_nil, or_false] at hmem
    rcases hmem with rfl | rfl | rfl | rfl
    · cases habsent
    · cases habsent
    · cases habsent
    · rfl

end FileTree

end Arith
