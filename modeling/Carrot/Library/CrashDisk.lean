import Mathlib.Tactic

/-!
# Files on a disk that may crash

Writes reach the disk in order, but a crash may take back those that came after
the last sync: it leaves a beginning of something that the file has held since
then, and at least what was there at the sync.  A file that was replaced by
renaming another one may come back until the directory is synced.
-/

universe u v

variable {α : Type u} {β : Type v}

/-- What a crash can not take away, what the file holds, and what it has held
since the last sync. -/
structure CrashFile (α : Type u) where
  certain : List α
  current : List α
  earlier : List (List α)

namespace CrashFile

/-- A file that is on the disk as a whole. -/
def settled (contents : List α) : CrashFile α := ⟨contents, contents, []⟩

def versions (file : CrashFile α) : List (List α) := file.current :: file.earlier

/-- The file gets other contents. -/
def write (file : CrashFile α) (contents : List α) : CrashFile α :=
  ⟨file.certain, contents, file.versions⟩

def sync (file : CrashFile α) : CrashFile α := settled file.current

/-- The end of the file is cut off, which a crash may undo. -/
def truncate (file : CrashFile α) (size : Nat) : CrashFile α :=
  ⟨file.certain.take size, file.current.take size, file.versions⟩

/-- What a crash may leave. -/
def Survives (file : CrashFile α) (contents : List α) : Prop :=
  file.certain <+: contents ∧ ∃ version ∈ file.versions, contents <+: version

theorem current_mem_versions (file : CrashFile α) : file.current ∈ file.versions :=
  List.mem_cons_self

theorem mem_versions_settled {contents version : List α}
    (membership : version ∈ (settled contents).versions) : version = contents :=
  List.mem_singleton.mp membership

end CrashFile

/-- The file that has the name, and those that had it and may have it again
after a crash. -/
structure CrashDisk (α : Type u) where
  active : CrashFile α
  replaced : List (CrashFile α)

namespace CrashDisk

def settled (contents : List α) : CrashDisk α := ⟨.settled contents, []⟩

def write (disk : CrashDisk α) (contents : List α) : CrashDisk α :=
  { disk with active := disk.active.write contents }

def sync (disk : CrashDisk α) : CrashDisk α := { disk with active := disk.active.sync }

/-- A file that has been synced takes the name. -/
def rename (disk : CrashDisk α) (contents : List α) : CrashDisk α :=
  ⟨.settled contents, disk.active :: disk.replaced⟩

def syncDirectory (disk : CrashDisk α) : CrashDisk α := { disk with replaced := [] }

/-- What may be found under the name after a crash. -/
def Survives (disk : CrashDisk α) (contents : List α) : Prop :=
  ∃ file ∈ disk.active :: disk.replaced, file.Survives contents

/-- What the file holds survives if nothing happens to it. -/
theorem survives_current {disk : CrashDisk α}
    (initial : disk.active.certain <+: disk.active.current) : disk.Survives disk.active.current :=
  ⟨disk.active, List.mem_cons_self, initial, _, disk.active.current_mem_versions,
    List.prefix_refl _⟩

end CrashDisk

/-! ## Files of encoded items -/

section

variable {encode : β → List α}

/-- The encodings of some items at the beginning of others, and a part of the
encoding of the next one. -/
structure Cut (encode : β → List α) (items whole : List β) (torn : List α) : Prop where
  initial : whole <+: items
  partly : torn ≠ [] → ∃ item missing, whole ++ [item] <+: items ∧ encode item = torn ++ missing ∧
    missing ≠ []

/-- Every beginning of the encodings of some items is cut in or behind one of
them. -/
theorem exists_cut {items : List β} {contents : List α}
    (initial : contents <+: items.flatMap encode) :
    ∃ whole torn, contents = whole.flatMap encode ++ torn ∧ Cut encode items whole torn := by
  induction items generalizing contents with
  | nil =>
      refine ⟨[], [], List.prefix_nil.mp initial, List.prefix_refl _, absurd rfl⟩
  | cons item items inductionHypothesis =>
      rw [List.flatMap_cons] at initial
      rcases List.prefix_or_prefix_of_prefix initial (List.prefix_append (encode item) _) with
        inside | ⟨rest, rfl⟩
      · obtain ⟨missing, split⟩ := inside
        by_cases complete : missing = []
        · subst complete
          refine ⟨[item], [], ?_, ⟨items, rfl⟩, absurd rfl⟩
          rw [List.append_nil] at split
          simp [split]
        · refine ⟨[], contents, rfl, List.nil_prefix, fun _ => ?_⟩
          exact ⟨item, missing, ⟨items, rfl⟩, split.symm, complete⟩
      · have shorter : rest <+: items.flatMap encode := (List.prefix_append_right_inj _).mp initial
        obtain ⟨whole, torn, rfl, cut⟩ := inductionHypothesis shorter
        refine ⟨item :: whole, torn, by simp, ?_, fun present => ?_⟩
        · exact (List.prefix_cons_inj item).mpr cut.initial
        · obtain ⟨next, missing, further, split, incomplete⟩ := cut.partly present
          exact ⟨next, missing, (List.prefix_cons_inj item).mpr further, split, incomplete⟩

/-- A cut leaves every item whose encoding it leaves. -/
theorem Cut.keeps {items whole kept : List β} {torn : List α} (cut : Cut encode items whole torn)
    (nonempty : ∀ item, encode item ≠ []) (initial : kept <+: items)
    (left : kept.flatMap encode <+: whole.flatMap encode ++ torn) : kept <+: whole := by
  rcases List.prefix_or_prefix_of_prefix initial cut.initial with shorter | ⟨rest, rfl⟩
  · exact shorter
  · cases rest with
    | nil => rw [List.append_nil]
    | cons item rest =>
        -- The next item would have to be in what is left of it.
        exfalso
        have next : encode item <+: torn := by
          rw [List.flatMap_append, List.prefix_append_right_inj, List.flatMap_cons] at left
          exact (List.prefix_append _ _).trans left
        have present : torn ≠ [] := by
          rintro rfl
          exact nonempty item (List.prefix_nil.mp next)
        obtain ⟨other, missing, further, split, incomplete⟩ := cut.partly present
        have same : item = other := by
          have both := List.prefix_of_prefix_length_le further
            ((List.prefix_append (whole ++ [item]) rest).trans
              (by rwa [List.append_assoc])) (by simp)
          have equal := both.eq_of_length (by simp)
          simpa using equal.symm
        subst same
        have short := next.length_le
        rw [split, List.length_append] at short
        have positive := List.length_pos_iff.mpr incomplete
        omega

/-- The file holds encoded items.  A crash leaves at least those that are kept,
and otherwise a beginning of some allowed ones. -/
structure CrashFile.Encodes (encode : β → List α) (allowed : List β → Prop) (kept : List β)
    (file : CrashFile α) : Prop where
  certain : kept.flatMap encode <+: file.certain
  versions : ∀ version ∈ file.versions,
    ∃ items, allowed items ∧ kept <+: items ∧ version <+: items.flatMap encode

namespace CrashFile.Encodes

variable {allowed : List β → Prop} {kept : List β} {file : CrashFile α}

theorem mono {more : List β → Prop} (encodes : file.Encodes encode allowed kept)
    (included : ∀ items, allowed items → kept <+: items → more items) :
    file.Encodes encode more kept where
  certain := encodes.certain
  versions version membership := by
    obtain ⟨items, isAllowed, initial, bounded⟩ := encodes.versions version membership
    exact ⟨items, included items isAllowed initial, initial, bounded⟩

theorem settled {items : List β} (isAllowed : allowed items) (initial : kept <+: items) :
    (CrashFile.settled (items.flatMap encode)).Encodes encode allowed kept where
  certain := initial.flatMap encode
  versions version membership := by
    rw [mem_versions_settled membership]
    exact ⟨items, isAllowed, initial, List.prefix_refl _⟩

theorem write (encodes : file.Encodes encode allowed kept) {items : List β} {contents : List α}
    (isAllowed : allowed items) (initial : kept <+: items)
    (bounded : contents <+: items.flatMap encode) :
    (file.write contents).Encodes encode allowed kept where
  certain := encodes.certain
  versions version membership := by
    rcases List.mem_cons.mp membership with rfl | membership
    · exact ⟨items, isAllowed, initial, bounded⟩
    · exact encodes.versions version membership

/-- A crash leaves whole items, those that are kept among them, and a part of
the next one. -/
theorem survives (encodes : file.Encodes encode allowed kept)
    (nonempty : ∀ item, encode item ≠ []) {contents : List α} (survives : file.Survives contents) :
    ∃ items whole torn, allowed items ∧ kept <+: whole ∧
      contents = whole.flatMap encode ++ torn ∧ Cut encode items whole torn := by
  obtain ⟨certain, version, membership, bounded⟩ := survives
  obtain ⟨items, isAllowed, initial, within⟩ := encodes.versions version membership
  obtain ⟨whole, torn, rfl, cut⟩ := exists_cut (bounded.trans within)
  exact ⟨items, whole, torn, isAllowed,
    cut.keeps nonempty initial (encodes.certain.trans certain), rfl, cut⟩

end CrashFile.Encodes

end
