import PingDelivery.Store.FileSystem
import Mathlib.Data.List.Induction
import Mathlib.Data.List.Nodup

/-! # What steps on a file system change

A file system knows a path by its key, so what matters about the children of a directory is that
their keys differ from one another and from those of the directories above. `Partly` is all that
taking a list of steps can come to when the process may stop, and a step may fail, at any point. A
write that fails need not be a step that fails: `PassesAs` is what may pass for a step.
-/

namespace PingDelivery.Store

namespace Path

/-- What the keys of a directory's children begin with. -/
def stem (dir : Path) : List Char := if dir = [] then [] else dir.key.toList ++ ['/']

theorem intercalate_concat (sep : List Char) (l : List (List Char)) (x : List Char) :
    sep.intercalate (l ++ [x]) = (if l = [] then [] else sep.intercalate l ++ sep) ++ x := by
  induction l with
  | nil => simp [List.intercalate]
  | cons y r ih =>
    cases r with
    | nil => simp [List.intercalate]
    | cons z r =>
      simp only [List.cons_append, List.intercalate_cons_cons, reduceCtorEq, if_false,
        List.append_assoc] at ih ⊢
      rw [ih]

theorem key_child (dir : Path) (name : String) :
    (key (dir ++ [name])).toList = stem dir ++ name.toList := by
  rw [key, String.toList_intercalate, List.map_append, List.map_singleton, intercalate_concat, stem,
    key, String.toList_intercalate]
  simp

theorem key_child_inj {dir : Path} {m n : String} :
    key (dir ++ [m]) = key (dir ++ [n]) ↔ m = n := by
  rw [← String.toList_inj, key_child, key_child, List.append_cancel_left_eq, String.toList_inj]

theorem key_child_ne_empty {dir : Path} {name : String} (h : name ≠ "") :
    key (dir ++ [name]) ≠ "" := by
  intro hk
  have hlist := congrArg String.toList hk
  rw [key_child] at hlist
  exact h (String.toList_inj.1 (List.append_eq_nil_iff.1 hlist).2)

theorem prefixes_child (dir : Path) (name : String) :
    prefixes (dir ++ [name]) = prefixes dir ++ [dir ++ [name]] := by
  rw [prefixes, List.length_append, List.length_singleton, List.range_succ, List.map_append,
    List.map_singleton, List.take_of_length_le (by simp)]
  congr 1
  refine List.map_congr_left fun n hn => ?_
  rw [List.take_append_of_le_length (List.mem_range.1 hn)]

theorem ne_nil_of_mem_prefixes {p q : Path} (h : q ∈ prefixes p) : q ≠ [] := by
  obtain ⟨n, hn, rfl⟩ := List.mem_map.1 h
  have := List.mem_range.1 hn
  intro hq
  have := congrArg List.length hq
  simp only [List.length_take, List.length_nil] at this
  omega

/-- The keys of the directories on the way are shorter than those of the children. -/
theorem length_key_of_mem_prefixes {dir q : Path} (h : q ∈ prefixes dir) :
    q.key.toList.length < (stem dir).length := by
  induction dir using List.reverseRecOn with
  | nil => cases h
  | append_singleton dir name ih =>
    have hstem : stem (dir ++ [name]) = (stem dir ++ name.toList) ++ ['/'] := by
      rw [stem, if_neg (by simp), key_child]
    rw [hstem, List.length_append, List.length_append]
    rw [prefixes_child] at h
    rcases List.mem_append.1 h with h | h
    · have := ih h
      omega
    · rw [List.mem_singleton.1 h, key_child, List.length_append]
      simp

theorem key_ne_of_mem_prefixes {dir q : Path} (h : q ∈ prefixes dir) (name : String) :
    q.key ≠ key (dir ++ [name]) := by
  intro hk
  have hlt := length_key_of_mem_prefixes h
  rw [hk, key_child, List.length_append] at hlt
  omega

/-- A name that can stand directly below a directory. -/
def Plain (name : String) : Prop := name ≠ "" ∧ '/' ∉ name.toList

end Path

namespace FileSystem
variable {fs : FileSystem} {p q dir : Path} {e : Entry}

theorem entryAt_put_of_ne (h : q.key ≠ p.key) : (fs.put p e).entryAt q = fs.entryAt q := by
  simp only [entryAt, put, Dict.get?_insert, if_neg h]

theorem entryAt_put (hp : p ≠ []) : (fs.put p e).entryAt p = some e := by
  simp only [entryAt, put, Dict.get?_insert, if_neg hp, if_pos]

theorem entryAt_erase_of_ne (h : q.key ≠ p.key) : (fs.erase p).entryAt q = fs.entryAt q := by
  simp only [entryAt, erase, Dict.get?_erase, if_neg h]

theorem entryAt_erase (hp : p ≠ []) : (fs.erase p).entryAt p = none := by
  simp only [entryAt, erase, Dict.get?_erase, if_neg hp, if_pos]

theorem entryAt_congr_child {name : String} (hne : name ≠ "") (hq : q.key = Path.key (dir ++ [name])) :
    fs.entryAt q = fs.entryAt (dir ++ [name]) := by
  have hne' : q ≠ [] := by
    rintro rfl
    exact Path.key_child_ne_empty hne hq.symm
  rw [entryAt, entryAt, if_neg hne', if_neg (by simp), hq]

/-! ## Directories and their children -/

/-- The directory is there, with every one above it. -/
def Present (fs : FileSystem) (dir : Path) : Prop :=
  ∀ q ∈ dir.prefixes, fs.entryAt q = some .directory

instance (fs : FileSystem) (dir : Path) : Decidable (fs.Present dir) :=
  inferInstanceAs (Decidable (∀ q ∈ dir.prefixes, fs.entryAt q = some .directory))

theorem Present.entryAt (h : fs.Present dir) : fs.entryAt dir = some .directory := by
  induction dir using List.reverseRecOn with
  | nil => rfl
  | append_singleton dir name =>
    exact h _ (by rw [Path.prefixes_child]; exact List.mem_append_right _ List.mem_cons_self)

theorem Present.not_blocked_child (h : fs.Present dir) (name : String) :
    fs.blocked (dir ++ [name]) = none := by
  rw [blocked, Path.prefixes_child, List.dropLast_concat, List.findSome?_eq_none_iff]
  intro q hq
  simp only [h q hq]

theorem Present.not_blocked (h : fs.Present dir) : fs.blocked dir = none := by
  rw [blocked, List.findSome?_eq_none_iff]
  intro q hq
  simp only [h q (List.dropLast_subset _ hq)]

theorem Present.list (h : fs.Present dir) : fs.list dir = .ok (fs.children dir) := by
  rw [FileSystem.list, h.not_blocked, h.entryAt]

theorem Present.create_child (h : fs.Present dir) {name : String}
    (hd : fs.entryAt (dir ++ [name]) ≠ some .directory) :
    fs.create (dir ++ [name]) = .ok (fs.put (dir ++ [name]) (.file [])) := by
  rw [create, h.not_blocked_child]
  split
  · contradiction
  · exact absurd ‹_› hd
  · rfl

theorem Present.remove_file (h : fs.Present dir) {name : String} {b : Bytes}
    (he : fs.entryAt (dir ++ [name]) = some (.file b)) :
    fs.remove (dir ++ [name]) = .ok (fs.erase (dir ++ [name])) := by
  rw [remove, h.not_blocked_child, he]

theorem Present.remove_none (h : fs.Present dir) {name : String}
    (he : fs.entryAt (dir ++ [name]) = none) : fs.remove (dir ++ [name]) = .error .notFound := by
  rw [remove, h.not_blocked_child, he]

theorem rename_file {b : Bytes} (hp : fs.entryAt p = some (.file b))
    (hq : fs.entryAt q ≠ some .directory) : fs.rename p q = .ok ((fs.erase p).put q (.file b)) := by
  rw [rename, hp]
  split
  · exact absurd ‹_› hq
  · rename_i he _
    cases he
    rfl
  · contradiction

/-- The name that a key gives to a child of the directory, if it is one's. -/
def childName? (dir : Path) (key : String) : Option String :=
  let name := key.toList.drop (Path.stem dir).length
  if (Path.stem dir).isPrefixOf key.toList && !name.isEmpty && !name.contains '/' then
    some (String.ofList name)
  else none

theorem children_eq (fs : FileSystem) (dir : Path) :
    fs.children dir = fs.entries.keys.filterMap (childName? dir) := rfl

theorem childName?_eq_some {key name : String} :
    childName? dir key = some name ↔ key = Path.key (dir ++ [name]) ∧ Path.Plain name := by
  simp only [Path.Plain, childName?, Option.ite_none_right_eq_some, Option.some.injEq, Bool.and_eq_true,
    Bool.not_eq_true', List.isPrefixOf_iff_prefix, List.isEmpty_eq_false_iff,
    List.contains_eq_mem, decide_eq_false_iff_not]
  constructor
  · rintro ⟨⟨⟨⟨t, ht⟩, hne⟩, hs⟩, rfl⟩
    rw [← ht, List.drop_left] at hne hs ⊢
    rw [String.toList_ofList]
    refine ⟨?_, fun h => hne ?_, hs⟩
    · rw [← String.toList_inj, Path.key_child, String.toList_ofList, ht]
    · rw [← String.toList_ofList (l := t), h, String.toList_empty]
  · rintro ⟨rfl, hne, hs⟩
    rw [Path.key_child, List.drop_left]
    refine ⟨⟨⟨List.prefix_append _ _, fun h => hne ?_⟩, hs⟩, String.ofList_toList⟩
    rw [← String.toList_inj, h, String.toList_empty]

/-- What stands in the directory under a name. -/
theorem mem_children {name : String} :
    name ∈ fs.children dir ↔ Path.Plain name ∧ (fs.entryAt (dir ++ [name])).isSome := by
  have hentry : fs.entryAt (dir ++ [name]) = fs.entries.get? (Path.key (dir ++ [name])) := by
    rw [FileSystem.entryAt, if_neg (by simp)]
  rw [hentry, ← Dict.mem_keys, children_eq, List.mem_filterMap]
  constructor
  · rintro ⟨key, hkey, hname⟩
    obtain ⟨rfl, hplain⟩ := childName?_eq_some.1 hname
    exact ⟨hplain, hkey⟩
  · rintro ⟨hplain, hkey⟩
    exact ⟨_, hkey, childName?_eq_some.2 ⟨rfl, hplain⟩⟩

theorem nodup_children (fs : FileSystem) (dir : Path) : (fs.children dir).Nodup := by
  refine fs.entries.nodup_keys.filterMap fun k k' name hk hk' => ?_
  rw [(childName?_eq_some.1 hk).1, (childName?_eq_some.1 hk').1]

/-- No directory stands in the directory under a name of the kind. -/
def FilesOnly (fs : FileSystem) (dir : Path) (kind : String → Bool) : Prop :=
  ∀ name ∈ fs.children dir, kind name = true → fs.entryAt (dir ++ [name]) ≠ some .directory

instance (fs : FileSystem) (dir : Path) (kind : String → Bool) : Decidable (fs.FilesOnly dir kind) :=
  inferInstanceAs (Decidable (∀ name ∈ fs.children dir, kind name = true →
    fs.entryAt (dir ++ [name]) ≠ some .directory))

theorem FilesOnly.entryAt_ne {kind : String → Bool} (h : fs.FilesOnly dir kind) {name : String}
    (hplain : Path.Plain name) (hk : kind name = true) :
    fs.entryAt (dir ++ [name]) ≠ some .directory :=
  fun he => h name (mem_children.2 ⟨hplain, Option.isSome_of_eq_some he⟩) hk he

/-- Where no directory has been made there is none now. -/
theorem FilesOnly.mono {kind : String → Bool} {fs' : FileSystem} (h : fs.FilesOnly dir kind)
    (hle : ∀ name, kind name = true → fs'.entryAt (dir ++ [name]) = some .directory →
      fs.entryAt (dir ++ [name]) = some .directory) : fs'.FilesOnly dir kind :=
  fun name hmem hk he => h.entryAt_ne (mem_children.1 hmem).1 hk (hle name hk he)

/-! ## Making directories -/

/-- No file stands on the way to the directory or in its place. -/
def Free (fs : FileSystem) (dir : Path) : Prop :=
  ∀ q ∈ dir.prefixes, fs.entryAt q = some .directory ∨ fs.entryAt q = none

instance (fs : FileSystem) (dir : Path) : Decidable (fs.Free dir) :=
  inferInstanceAs (Decidable (∀ q ∈ dir.prefixes,
    fs.entryAt q = some .directory ∨ fs.entryAt q = none))

theorem Present.free (h : fs.Present dir) : fs.Free dir := fun q hq => .inl (h q hq)

/-- What may differ once directories have been made: some that were missing are there. -/
def Grown (qs : List Path) (fs fs₁ : FileSystem) : Prop :=
  ∀ q, fs₁.entryAt q = fs.entryAt q ∨
    fs.entryAt q = none ∧ fs₁.entryAt q = some .directory ∧ ∃ a ∈ qs, q.key = a.key

theorem Grown.entryAt_of_ne {qs : List Path} {fs₁ : FileSystem} (h : Grown qs fs fs₁)
    (hq : ∀ a ∈ qs, q.key ≠ a.key) : fs₁.entryAt q = fs.entryAt q := by
  rcases h q with h | ⟨-, -, a, ha, hk⟩
  · exact h
  · exact absurd hk (hq a ha)

theorem Grown.directory {qs : List Path} {fs₁ : FileSystem} (h : Grown qs fs fs₁)
    (hq : fs.entryAt q = some .directory) : fs₁.entryAt q = some .directory := by
  rcases h q with h | ⟨hn, -, -⟩
  · rw [h, hq]
  · rw [hn] at hq
    cases hq

/-- Makes one of the directories on the way to `p`, unless it is there. -/
def makeDirectory (p : Path) (fs : FileSystem) (q : Path) : Except OsError FileSystem :=
  match fs.entryAt q with
  | some .directory => .ok fs
  | some (.file _) => .error (if q = p then .alreadyExists else .notDirectory)
  | none => .ok (fs.put q .directory)

theorem makeDirectories_eq (fs : FileSystem) (p : Path) :
    fs.makeDirectories p = p.prefixes.foldlM (makeDirectory p) fs := rfl

theorem makeDirectory_of_directory (hq : fs.entryAt q = some .directory) :
    makeDirectory p fs q = .ok fs := by
  rw [makeDirectory, hq]

theorem makeDirectory_of_none (hq : fs.entryAt q = none) :
    makeDirectory p fs q = .ok (fs.put q .directory) := by
  rw [makeDirectory, hq]

theorem foldlM_makeDirectory (p : Path) (qs : List Path) (fs : FileSystem)
    (hne : ∀ q ∈ qs, q ≠ [])
    (hfree : ∀ q ∈ qs, fs.entryAt q = some .directory ∨ fs.entryAt q = none) :
    ∃ fs₁, qs.foldlM (makeDirectory p) fs = .ok fs₁ ∧
      (∀ q ∈ qs, fs₁.entryAt q = some .directory) ∧ Grown qs fs fs₁ := by
  induction qs generalizing fs with
  | nil => exact ⟨fs, rfl, fun q hq => absurd hq List.not_mem_nil, fun q => .inl rfl⟩
  | cons a r ih =>
    have hr : ∀ q ∈ r, q ≠ [] := fun q hq => hne q (List.mem_cons_of_mem _ hq)
    rcases hfree a List.mem_cons_self with ha | ha
    · obtain ⟨fs₁, hfold, hall, hgrown⟩ :=
        ih fs hr fun q hq => hfree q (List.mem_cons_of_mem _ hq)
      refine ⟨fs₁, ?_, ?_, ?_⟩
      · rw [List.foldlM_cons, makeDirectory_of_directory ha]
        exact hfold
      · intro q hq
        rcases List.mem_cons.1 hq with rfl | hq
        · exact hgrown.directory ha
        · exact hall q hq
      · intro q
        rcases hgrown q with h | ⟨hn, hd, b, hb, hk⟩
        · exact .inl h
        · exact .inr ⟨hn, hd, b, List.mem_cons_of_mem _ hb, hk⟩
    · have hane := hne a List.mem_cons_self
      have hput : ∀ q : Path, q ≠ [] → q.key = a.key →
          fs.entryAt q = none ∧ (fs.put a .directory).entryAt q = some .directory := by
        intro q hq hk
        have hsame : ∀ fs : FileSystem, fs.entryAt q = fs.entryAt a := fun fs => by
          rw [entryAt, entryAt, if_neg hq, if_neg hane, hk]
        exact ⟨(hsame fs).trans ha, (hsame _).trans (entryAt_put hane)⟩
      -- the others are made with `a` already there, which may be one of them under another path
      obtain ⟨fs₁, hfold, hall, hgrown⟩ := ih (fs.put a .directory) hr (by
        intro q hq
        by_cases hk : q.key = a.key
        · exact .inl (hput q (hr q hq) hk).2
        · rw [entryAt_put_of_ne hk]
          exact hfree q (List.mem_cons_of_mem _ hq))
      refine ⟨fs₁, ?_, ?_, ?_⟩
      · rw [List.foldlM_cons, makeDirectory_of_none ha]
        exact hfold
      · intro q hq
        rcases List.mem_cons.1 hq with rfl | hq
        · exact hgrown.directory (entryAt_put hane)
        · exact hall q hq
      · intro q
        by_cases hq : q = []
        · subst hq
          exact .inl rfl
        · by_cases hk : q.key = a.key
          · obtain ⟨hnone, hdir⟩ := hput q hq hk
            exact .inr ⟨hnone, hgrown.directory hdir, a, List.mem_cons_self, hk⟩
          · have hsame : (fs.put a .directory).entryAt q = fs.entryAt q := entryAt_put_of_ne hk
            rw [← hsame]
            rcases hgrown q with h | ⟨hn, hd, b, hb, hk⟩
            · exact .inl h
            · exact .inr ⟨hn, hd, b, List.mem_cons_of_mem _ hb, hk⟩

theorem Free.makeDirectories (h : fs.Free dir) :
    ∃ fs₁, fs.makeDirectories dir = .ok fs₁ ∧ fs₁.Present dir ∧ Grown dir.prefixes fs fs₁ := by
  rw [makeDirectories_eq]
  exact foldlM_makeDirectory dir dir.prefixes fs (fun _ => Path.ne_nil_of_mem_prefixes) h

theorem Present.makeDirectories (h : fs.Present dir) : fs.makeDirectories dir = .ok fs := by
  have hall : ∀ qs : List Path, (∀ q ∈ qs, fs.entryAt q = some .directory) →
      qs.foldlM (makeDirectory dir) fs = .ok fs := by
    intro qs hqs
    induction qs with
    | nil => rfl
    | cons a r ih =>
      rw [List.foldlM_cons, makeDirectory_of_directory (hqs a List.mem_cons_self)]
      exact ih fun q hq => hqs q (List.mem_cons_of_mem _ hq)
  exact hall dir.prefixes h

/-! ## Taking steps -/

/-- The paths whose entries a step may change. -/
def Step.touched : Step → List Path
  | .create p | .write p _ | .remove p => [p]
  | .rename a b => [a, b]
  | .sync _ => []

theorem Step.entryAt_of_untouched {s : Step} {fs₁ : FileSystem} (h : s.apply fs = .ok fs₁)
    (hq : ∀ p ∈ s.touched, q.key ≠ p.key) : fs₁.entryAt q = fs.entryAt q := by
  cases s with
  | create p =>
    simp only [apply, FileSystem.create] at h
    split at h <;> cases h
    exact entryAt_put_of_ne (hq p List.mem_cons_self)
  | write p b =>
    cases h
    exact entryAt_put_of_ne (hq p List.mem_cons_self)
  | sync p =>
    cases h
    rfl
  | rename a b =>
    simp only [apply, FileSystem.rename] at h
    split at h <;> cases h
    rw [entryAt_put_of_ne (hq b (List.mem_cons_of_mem _ List.mem_cons_self)),
      entryAt_erase_of_ne (hq a List.mem_cons_self)]
  | remove p =>
    simp only [apply, FileSystem.remove] at h
    split at h <;> cases h
    exact entryAt_erase_of_ne (hq p List.mem_cons_self)

theorem entryAt_erase_eq_some (h : (fs.erase p).entryAt q = some e) : fs.entryAt q = some e := by
  by_cases hq : q = []
  · subst hq
    exact h
  · simp only [entryAt, erase, if_neg hq, Dict.get?_erase] at h ⊢
    split at h
    · cases h
    · exact h

theorem directory_of_put {e : Entry} (he : e ≠ .directory)
    (h : (fs.put p e).entryAt q = some .directory) : fs.entryAt q = some .directory := by
  by_cases hq : q = []
  · subst hq
    exact h
  · simp only [entryAt, put, if_neg hq, Dict.get?_insert] at h ⊢
    split at h
    · exact absurd (Option.some.inj h) he
    · exact h

/-- No step makes a directory, and only a renaming could move one. -/
theorem Step.directory_of_apply {s : Step} {fs₁ : FileSystem} (h : s.apply fs = .ok fs₁)
    (hs : ∀ a b, s = .rename a b → fs.entryAt a ≠ some .directory)
    (hq : fs₁.entryAt q = some .directory) : fs.entryAt q = some .directory := by
  cases s with
  | create p =>
    simp only [apply, FileSystem.create] at h
    split at h <;> cases h
    exact directory_of_put (by simp) hq
  | write p b =>
    cases h
    exact directory_of_put (by simp) hq
  | sync p =>
    cases h
    exact hq
  | rename a b =>
    have hdir := hs a b rfl
    simp only [apply, FileSystem.rename] at h
    split at h <;> cases h
    rename_i e _ ha _
    exact entryAt_erase_eq_some (directory_of_put (fun he => hdir (he ▸ ha)) hq)
  | remove p =>
    simp only [apply, FileSystem.remove] at h
    split at h <;> cases h
    exact entryAt_erase_eq_some hq

/-! ### Writing piece by piece

A file is written in the background, a piece at a time. What became of a piece is told with the next
one, so nobody hears of the last: syncing the file waits for it, and drops its error. -/

/-- The most bytes that are on their way to a file at one time, 2 MiB. -/
def pieceSize : Nat := 2097152

/-- The bytes that go out before the last piece. -/
def beforeLast (b : Bytes) : Nat := (b.length - 1) / pieceSize * pieceSize

/-- What may have been done where a step has been taken for done: the last piece of a write may have
gone to the file in part. -/
inductive Step.PassesAs : Step → Step → Prop where
  | whole (s : Step) : PassesAs s s
  | cut {b part : Bytes} (h : part <+: b) (hlast : beforeLast b ≤ part.length) (p : Path) :
      PassesAs (.write p b) (.write p part)

/-- Steps other than writes are taken for done only if they are. -/
theorem eq_of_passesAs {l taken : List Step} (h : List.Forall₂ Step.PassesAs l taken)
    (hl : ∀ s ∈ l, ∀ p b, s ≠ .write p b) : taken = l := by
  induction h with
  | nil => rfl
  | cons hs _ ih =>
    rw [ih fun s hs => hl s (List.mem_cons_of_mem _ hs)]
    cases hs with
    | whole => rfl
    | cut => exact absurd rfl (hl _ List.mem_cons_self _ _)

/-- `Partly steps fs n out fs'`: of the steps the first `n` have been carried out. The process has
stopped there, or the next step has failed, before or after its work, or there is no next step. A
file may have been written to in part. Without a result the process has stopped. -/
inductive Partly : List Step → FileSystem → Nat → Option (Except OsError Unit) → FileSystem →
    Prop where
  | finished (fs : FileSystem) : Partly [] fs 0 (some (.ok ())) fs
  | stopped (steps : List Step) (fs : FileSystem) : Partly steps fs 0 none fs
  | refused (s : Step) (r : List Step) (fs : FileSystem) (e : OsError) :
      Partly (s :: r) fs 0 (some (.error e)) fs
  | torn {b part : Bytes} (h : part <+: b) (p : Path) (r : List Step) (fs : FileSystem) :
      Partly (.write p b :: r) fs 0 none (fs.put p (.file part))
  | told {b part : Bytes} (h : part <+: b) (hlen : part.length ≤ beforeLast b) (p : Path)
      (r : List Step) (fs : FileSystem) (e : OsError) :
      Partly (.write p b :: r) fs 0 (some (.error e)) (fs.put p (.file part))
  | late {s : Step} {fs fs₁ : FileSystem} (h : s.apply fs = .ok fs₁) (r : List Step) (e : OsError) :
      Partly (s :: r) fs 1 (some (.error e)) fs₁
  | step {s : Step} {r : List Step} {fs fs₁ fs' : FileSystem} {n : Nat}
      {out : Option (Except OsError Unit)} (h : s.apply fs = .ok fs₁) (h' : Partly r fs₁ n out fs') :
      Partly (s :: r) fs (n + 1) out fs'

/-- Left alone, steps are taken until one fails. -/
theorem follow_partly (steps : List Step) (fs : FileSystem) :
    ∃ n, Partly steps fs n (some (fs.follow steps).1) (fs.follow steps).2 := by
  induction steps generalizing fs with
  | nil => exact ⟨0, .finished fs⟩
  | cons s r ih =>
    rw [follow]
    cases h : s.apply fs with
    | error e => exact ⟨0, .refused s r fs e⟩
    | ok fs₁ =>
      obtain ⟨n, hn⟩ := ih fs₁
      exact ⟨n + 1, .step h hn⟩

namespace Partly
variable {steps xs ys : List Step} {n : Nat} {out : Option (Except OsError Unit)} {fs' : FileSystem}

theorem entryAt_of_untouched (h : Partly steps fs n out fs')
    (hq : ∀ s ∈ steps, ∀ p ∈ s.touched, q.key ≠ p.key) : fs'.entryAt q = fs.entryAt q := by
  induction h with
  | finished fs | stopped steps fs | refused s r fs e => rfl
  | torn _ p r fs | told _ _ p r fs e =>
    exact entryAt_put_of_ne (hq _ List.mem_cons_self p List.mem_cons_self)
  | late h r e => exact Step.entryAt_of_untouched h (hq _ List.mem_cons_self)
  | step h _ ih =>
    rw [ih fun s hs => hq s (List.mem_cons_of_mem _ hs)]
    exact Step.entryAt_of_untouched h (hq _ List.mem_cons_self)

theorem directory (h : Partly steps fs n out fs')
    (hr : ∀ a b, .rename a b ∈ steps → fs.entryAt a ≠ some .directory)
    (hq : fs'.entryAt q = some .directory) : fs.entryAt q = some .directory := by
  induction h with
  | finished fs | stopped steps fs | refused s r fs e => exact hq
  | torn _ p r fs | told _ _ p r fs e => exact directory_of_put (by simp) hq
  | late h r e =>
    exact Step.directory_of_apply h (fun a b hs => hr a b (hs ▸ List.mem_cons_self)) hq
  | @step s r fs fs₁ fs' n out h _ ih =>
    have hs : ∀ a b, s = .rename a b → fs.entryAt a ≠ some .directory :=
      fun a b hs => hr a b (hs ▸ List.mem_cons_self)
    -- what is renamed later is no directory now, and this step does not make it one
    refine Step.directory_of_apply h hs (ih (fun a b hab ha => ?_) hq)
    exact hr a b (List.mem_cons_of_mem _ hab) (Step.directory_of_apply h hs ha)

theorem length_of_ok (h : Partly steps fs n (some (.ok ())) fs') : n = steps.length := by
  generalize hout : some (Except.ok ()) = out at h
  induction h with
  | finished fs => rfl
  | stopped steps fs | refused s r fs e | torn _ p r fs | told _ _ p r fs e | late h r e => cases hout
  | step h _ ih => rw [ih hout, List.length_cons]

/-- Steps in two groups come to an end within the first, or the first is finished. -/
theorem of_append (h : Partly (xs ++ ys) fs n out fs') :
    (n ≤ xs.length ∧ out ≠ some (.ok ()) ∧ Partly xs fs n out fs') ∨
      ∃ fs₁ m, Partly xs fs xs.length (some (.ok ())) fs₁ ∧ Partly ys fs₁ m out fs' ∧
        n = xs.length + m := by
  induction xs generalizing fs n with
  | nil => exact .inr ⟨fs, n, .finished fs, h, (Nat.zero_add n).symm⟩
  | cons s xs ih =>
    cases h with
    | stopped => exact .inl ⟨Nat.zero_le _, by simp, .stopped _ _⟩
    | refused _ _ _ e => exact .inl ⟨Nat.zero_le _, by simp, .refused s xs _ e⟩
    | torn hb p => exact .inl ⟨Nat.zero_le _, by simp, .torn hb p xs _⟩
    | told hb hlen p _ _ e => exact .inl ⟨Nat.zero_le _, by simp, .told hb hlen p xs _ e⟩
    | late h _ e => exact .inl ⟨Nat.succ_le_succ (Nat.zero_le _), by simp, .late h xs e⟩
    | step h h' =>
      rcases ih h' with ⟨hn, hout, hp⟩ | ⟨fs₁, m, hxs, hys, rfl⟩
      · exact .inl ⟨Nat.succ_le_succ hn, hout, .step h hp⟩
      · exact .inr ⟨fs₁, m, .step h hxs, hys, by rw [List.length_cons]; omega⟩

/-- A step that is followed by a mere flush has been taken or not. -/
theorem of_flushed {s : Step} {p : Path} (hs : ∀ a b, s ≠ .write a b)
    (h : Partly [s, .sync p] fs n out fs') :
    (n = 0 ∧ fs' = fs ∧ out ≠ some (.ok ())) ∨ (0 < n ∧ s.apply fs = .ok fs') := by
  cases h with
  | stopped | refused => exact .inl ⟨rfl, rfl, by simp⟩
  | torn | told => exact absurd rfl (hs _ _)
  | late h => exact .inr ⟨Nat.one_pos, h⟩
  | step h h' =>
    refine .inr ⟨Nat.succ_pos _, ?_⟩
    cases h' with
    | stopped | refused => exact h
    | late h' =>
      cases h'
      exact h
    | step h' h'' =>
      cases h'
      cases h'' <;> exact h

end Partly
end FileSystem
end PingDelivery.Store
