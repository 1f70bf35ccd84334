import Arith.Files.FileTree

/-!
# What writing a file changes

The place of a file that is written lies in a directory that was there before. So no directory comes
into being with the file, and all other places hold what they held (`exists_location_of_write`).
-/

namespace Arith.FileTree

variable {t t' : FileTree} {p : Path} {content : Bytes} {location other : Location}

/-! ## What stands in a tree -/

/-- A tree has a place if it is one of its entries or of its directories, named or implied. -/
def Holds (t : FileTree) (location : Location) : Prop :=
  location <+: t.base ∨ ∃ e ∈ t.entries, location <+: e.1

/-- With a place a tree has all the places around it. -/
theorem Holds.outer (h : t.Holds location) (hfront : other <+: location) : t.Holds other := by
  rcases h with hbase | ⟨e, he, hentry⟩
  · exact Or.inl (hfront.trans hbase)
  · exact Or.inr ⟨e, he, hfront.trans hentry⟩

instance (t : FileTree) (location : Location) : Decidable (t.Holds location) :=
  inferInstanceAs (Decidable (_ ∨ _))

/-- Where no entry is, a directory stands if the tree has the place. -/
theorem find?_eq (t : FileTree) (location : Location) :
    t.find? location = match t.entries.find? fun e => e.1 == location with
      | some (_, entry) => some entry
      | none => if t.Holds location then some .directory else none := by
  have hholds :
      (location.isPrefixOf t.base || t.entries.any fun e => location.isPrefixOf e.1) = true
        ↔ t.Holds location := by
    simp only [Bool.or_eq_true, List.any_eq_true, List.isPrefixOf_iff_prefix, Holds]
  unfold find?
  cases t.entries.find? fun e => e.1 == location with
  | some e => rfl
  | none => exact ite_congr (propext hholds) (fun _ => rfl) (fun _ => rfl)

/-- All that is found in a tree is a place of it. -/
theorem holds_of_find? {entry : FileEntry} (h : t.find? location = some entry) :
    t.Holds location := by
  rw [find?_eq] at h
  split at h
  next place entry he =>
    have hplace : place = location := by simpa using List.find?_some he
    exact Or.inr ⟨(place, entry), List.mem_of_find?_eq_some he, hplace ▸ List.prefix_rfl⟩
  next =>
    split at h
    next hholds => exact hholds
    next => cases h

/-! ## Where paths lead -/

/-- A name is entered in a directory, so that the tree has the place around the next one. -/
theorem holds_dropLast_of_enter {name : List Char} {next : Location}
    (h : t.enter location name = .ok next) : t.Holds next.dropLast := by
  unfold enter at h
  split at h
  · cases h
  · cases h
  · cases h
  next hdirectory =>
    have hholds := holds_of_find? hdirectory
    split at h
    · cases h
    · cases h
      split
      · -- two dots lead out of the directory, whose place is a place of the tree itself
        exact hholds.outer ((List.dropLast_prefix _).trans (List.dropLast_prefix _))
      · rwa [List.dropLast_concat]

theorem holds_dropLast_of_enters {names : List (List Char)} {last : Location}
    (hholds : t.Holds location.dropLast) (h : names.foldlM t.enter location = .ok last) :
    t.Holds last.dropLast := by
  induction names generalizing location with
  | nil =>
    cases h
    exact hholds
  | cons name names ih =>
    rw [List.foldlM_cons] at h
    cases henter : t.enter location name with
    | error f =>
      rw [henter] at h
      cases h
    | ok next =>
      rw [henter] at h
      exact ih (holds_dropLast_of_enter henter) h

/-- **A path leads into a directory of the tree**, or out of one. -/
theorem holds_dropLast_of_follow (h : t.follow p = .ok location) : t.Holds location.dropLast := by
  unfold follow at h
  split at h
  · cases h
  · split at h
    · cases h
    · refine holds_dropLast_of_enters (Or.inl ?_) h
      split
      · exact List.dropLast_prefix _
      · exact List.nil_prefix

/-! ## Putting a file -/

/-- The places in front of a place are the place around it, and those around that. -/
theorem prefix_dropLast (h : other <+: location) (hne : other ≠ location) :
    other <+: location.dropLast := by
  rcases List.eq_nil_or_concat location with rfl | ⟨front, name, rfl⟩
  · exact absurd (List.prefix_nil.1 h) hne
  · rw [List.concat_eq_append] at h hne ⊢
    rw [List.dropLast_concat]
    exact (List.prefix_concat_iff.1 h).resolve_left hne

/-- A file that is put into a directory adds no place but its own. -/
theorem holds_put (hparent : t.Holds location.dropLast) (hother : other ≠ location) :
    (t.put location content).Holds other ↔ t.Holds other := by
  constructor
  · rintro (hbase | ⟨e, he, hfront⟩)
    · exact Or.inl hbase
    · rcases List.mem_cons.1 he with rfl | he
      · exact hparent.outer (prefix_dropLast hfront hother)
      · exact Or.inr ⟨e, (List.mem_filter.1 he).1, hfront⟩
  · rintro (hbase | ⟨e, he, hfront⟩)
    · exact Or.inl hbase
    · refine Or.inr ?_
      by_cases hplace : e.1 = location
      · exact ⟨(location, .file content), List.mem_cons_self, hplace ▸ hfront⟩
      · exact ⟨e, List.mem_cons_of_mem _ (List.mem_filter.2 ⟨he, by simpa using hplace⟩), hfront⟩

/-- The entries for other places stay. -/
theorem find?_entries_put (hother : other ≠ location) :
    (t.put location content).entries.find? (fun e => e.1 == other)
      = t.entries.find? fun e => e.1 == other := by
  have hkept (e : Location × FileEntry) :
      decide ((e.1 != location) = true ∧ (e.1 == other) = true) = (e.1 == other) := by
    by_cases he : e.1 = other
    · simp [he, hother]
    · simp [he]
  rw [put, List.find?_cons_of_neg (by simpa using Ne.symm hother), List.find?_filter]
  simp only [hkept]

/-- **A file that is put into a directory changes no other place.** -/
theorem find?_put_of_ne (hparent : t.Holds location.dropLast) (hother : other ≠ location) :
    (t.put location content).find? other = t.find? other := by
  rw [find?_eq, find?_eq, find?_entries_put hother]
  cases t.entries.find? fun e => e.1 == other with
  | some e => rfl
  | none => exact ite_congr (propext (holds_put hparent hother)) (fun _ => rfl) (fun _ => rfl)

/-! ## Writing a file -/

/-- A content has gone to a place: it is the content of the file there, or a device took it. -/
inductive Took (t t' : FileTree) (location : Location) (content : Bytes) : Prop where
  | file (hfile : t'.find? location = some (.file content))
  | device (hdevice : t.find? location = some .device) (hsame : t' = t)

/-- **What is written goes to one place, and all others hold what they held.** -/
theorem exists_location_of_write (h : t.write p content = .ok t') :
    ∃ location, t.follow p = .ok location ∧ Took t t' location content ∧
      ∀ other ≠ location, t'.find? other = t.find? other := by
  unfold write at h
  cases hfollow : t.follow p with
  | error f =>
    rw [hfollow] at h
    cases h
  | ok location =>
    have hput : (t.put location content).find? location = some (.file content) :=
      find?_put t location content
    have hparent := holds_dropLast_of_follow hfollow
    refine ⟨location, rfl, ?_⟩
    simp only [hfollow, bind, Except.bind] at h
    split at h
    · cases h
    next hdevice =>
      cases h
      exact ⟨Took.device hdevice rfl, fun _ _ => rfl⟩
    · cases h
      exact ⟨Took.file hput, fun _ hother => find?_put_of_ne hparent hother⟩
    · cases h
      exact ⟨Took.file hput, fun _ hother => find?_put_of_ne hparent hother⟩

end Arith.FileTree
