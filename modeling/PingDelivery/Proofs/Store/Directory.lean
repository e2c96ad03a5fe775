import PingDelivery.Proofs.Store.Execution
import PingDelivery.Proofs.Store.Naming

/-! # The directory store over a file system

The steps of a call change nothing but the record and the temporary file of its own key, and the
record only by the one step that settles the call. So a directory in use stays in use, whatever
becomes of a call, and can be opened again.
-/

namespace PingDelivery.Store

/-- The key of a call, if there is one, is valid. -/
def Call.Valid (c : Call) : Prop := ∀ k ∈ c.key?, ValidKey k

namespace Directory
open FileSystem
variable {root : Path} {k k' : String}

/-! ## The steps of a call -/

def steps (root : Path) : Call → List Step
  | .put k b => putSteps root k b
  | .delete k => deleteSteps root k
  | .get _ | .list => []

/-- Renaming and removing are the steps that settle what a record is. -/
def settles : Step → Bool
  | .rename _ _ | .remove _ => true
  | _ => false

/-- Whether the settling step of a call is among the first `n`. -/
def Settled (root : Path) (c : Call) (n : Nat) : Prop := ((steps root c).take n).any settles = true

instance (root : Path) (c : Call) (n : Nat) : Decidable (Settled root c n) := by
  unfold Settled; infer_instance

/-- What stands in the place of the record once the call is settled. -/
def leaves : Call → Option Entry
  | .put _ b => some (.file b)
  | .delete _ | .get _ | .list => none

theorem touched_steps {c : Call} {s : Step} (hs : s ∈ steps root c) {p : Path} (hp : p ∈ s.touched) :
    ∃ k ∈ c.key?, p = recordPath root k ∨ p = temporaryPath root k := by
  cases c with
  | put k b =>
    refine ⟨k, rfl, ?_⟩
    simp only [steps, putSteps, List.mem_cons, List.not_mem_nil, or_false] at hs
    rcases hs with rfl | rfl | rfl | rfl | rfl <;>
      simp only [Step.touched, List.mem_cons, List.not_mem_nil, or_false] at hp
    · exact .inr hp
    · exact .inr hp
    · exact hp.symm
  | delete k =>
    refine ⟨k, rfl, ?_⟩
    simp only [steps, deleteSteps, List.mem_cons, List.not_mem_nil, or_false] at hs
    rcases hs with rfl | rfl <;>
      simp only [Step.touched, List.mem_cons, List.not_mem_nil, or_false] at hp
    exact .inl hp
  | get k => cases hs
  | list => cases hs

variable {c : Call} {fs fs' : FileSystem} {n : Nat} {out : Option (Except OsError Unit)}

/-- Nothing but the record and the temporary file of its own key is changed by a call. -/
theorem entryAt_of_foreign (h : Partly (steps root c) fs n out fs') {q : Path}
    (hq : ∀ k ∈ c.key?, q.key ≠ (recordPath root k).key ∧ q.key ≠ (temporaryPath root k).key) :
    fs'.entryAt q = fs.entryAt q := by
  refine h.entryAt_of_untouched fun s hs p hp => ?_
  obtain ⟨k, hk, rfl | rfl⟩ := touched_steps hs hp
  · exact (hq k hk).1
  · exact (hq k hk).2

/-- The steps of a put up to where the new record is complete but not yet in place. -/
def staging (root : Path) (k : String) (b : Bytes) : List Step :=
  [.create (temporaryPath root k), .write (temporaryPath root k) b, .sync (temporaryPath root k)]

def placing (root : Path) (k : String) : List Step :=
  [.rename (temporaryPath root k) (recordPath root k), .sync root]

theorem steps_put (root : Path) (k : String) (b : Bytes) :
    steps root (.put k b) = staging root k b ++ placing root k := rfl

theorem entryAt_of_staging {b : Bytes} (h : Partly (staging root k b) fs n out fs') {q : Path}
    (hq : q.key ≠ (temporaryPath root k).key) : fs'.entryAt q = fs.entryAt q := by
  refine h.entryAt_of_untouched fun s hs p hp => ?_
  simp only [staging, List.mem_cons, List.not_mem_nil, or_false] at hs
  rcases hs with rfl | rfl | rfl <;>
    simp only [Step.touched, List.mem_cons, List.not_mem_nil, or_false] at hp
  · exact hp ▸ hq
  · exact hp ▸ hq

theorem temporary_of_staging {b : Bytes} (h : Partly (staging root k b) fs n (some (.ok ())) fs') :
    fs'.entryAt (temporaryPath root k) = some (.file b) := by
  cases h with
  | step _ h =>
    cases h with
    | step hw h =>
      cases h with
      | step hs h =>
        cases hw
        cases hs
        cases h
        exact entryAt_put (by simp [temporaryPath])

theorem not_settled_put {b : Bytes} (hn : n ≤ (staging root k b).length) :
    ¬ Settled root (.put k b) n := by
  rw [Settled, steps_put, List.take_append_of_le_length hn, List.any_eq_true]
  rintro ⟨s, hs, hsettles⟩
  have hmem := List.mem_of_mem_take hs
  simp only [staging, List.mem_cons, List.not_mem_nil, or_false] at hmem
  rcases hmem with rfl | rfl | rfl <;> cases hsettles

theorem settled_put {b : Bytes} (hn : 0 < n) :
    Settled root (.put k b) ((staging root k b).length + n) := by
  obtain ⟨m, rfl⟩ : ∃ m, n = m + 1 := ⟨n - 1, by omega⟩
  rw [Settled, steps_put, List.take_length_add_append, List.any_append, placing, List.take_succ_cons,
    List.any_cons, settles, Bool.true_or, Bool.or_true]

/-- A put ends before its record is in place, and then only the temporary file has changed, or
after. -/
theorem put_cases {b : Bytes} (h : Partly (steps root (.put k b)) fs n out fs') :
    ∃ fs₁, (∀ q : Path, q.key ≠ (temporaryPath root k).key → fs₁.entryAt q = fs.entryAt q) ∧
      (¬ Settled root (.put k b) n ∧ out ≠ some (.ok ()) ∧ fs' = fs₁ ∨
        Settled root (.put k b) n ∧
          fs' = (fs₁.erase (temporaryPath root k)).put (recordPath root k) (.file b)) := by
  rw [steps_put] at h
  rcases h.of_append with ⟨hn, hout, hp⟩ | ⟨fs₁, m, hstaged, hp, hn⟩
  · exact ⟨fs', fun q => entryAt_of_staging hp, .inl ⟨not_settled_put hn, hout, rfl⟩⟩
  · -- the whole of the bytes is staged, so it is they that the renaming puts in place
    refine ⟨fs₁, fun q => entryAt_of_staging hstaged, ?_⟩
    rcases hp.of_flushed (by simp) with ⟨rfl, rfl, hout⟩ | ⟨hm, happly⟩
    · exact .inl ⟨not_settled_put hn.le, hout, rfl⟩
    · refine .inr ⟨hn ▸ settled_put hm, ?_⟩
      simp only [Step.apply, FileSystem.rename, temporary_of_staging hstaged] at happly
      split at happly <;> cases happly
      rename_i he _
      cases he
      rfl

/-- A delete ends before the record is removed or after. -/
theorem delete_cases (h : Partly (steps root (.delete k)) fs n out fs') :
    ¬ Settled root (.delete k) n ∧ out ≠ some (.ok ()) ∧ fs' = fs ∨
      Settled root (.delete k) n ∧ fs' = fs.erase (recordPath root k) := by
  rcases Partly.of_flushed (by simp) h with ⟨rfl, rfl, hout⟩ | ⟨hn, happly⟩
  · exact .inl ⟨by simp [Settled], hout, rfl⟩
  · obtain ⟨m, rfl⟩ : ∃ m, n = m + 1 := ⟨n - 1, by omega⟩
    refine .inr ⟨by simp [Settled, steps, deleteSteps, settles], ?_⟩
    simp only [Step.apply, FileSystem.remove] at happly
    split at happly <;> cases happly
    rfl

/-- A record changes by the settling step alone, and then all at once. -/
theorem record_of_partly (hk : k ∈ c.key?) (h : Partly (steps root c) fs n out fs') :
    fs'.entryAt (recordPath root k) =
      if Settled root c n then leaves c else fs.entryAt (recordPath root k) := by
  have hne : recordPath root k ≠ [] := by simp [recordPath]
  cases c with
  | put k b =>
    cases hk
    obtain ⟨fs₁, hstaged, ⟨hs, -, rfl⟩ | ⟨hs, rfl⟩⟩ := put_cases h
    · rw [if_neg hs, hstaged _ key_recordPath_ne_temporaryPath]
    · rw [if_pos hs, entryAt_put hne, leaves]
  | delete k =>
    cases hk
    obtain ⟨hs, -, rfl⟩ | ⟨hs, rfl⟩ := delete_cases h
    · rw [if_neg hs]
    · rw [if_pos hs, entryAt_erase hne, leaves]
  | get k =>
    have hs : ¬ Settled root (.get k) n := by simp [Settled, steps]
    rw [if_neg hs]
    cases h <;> rfl
  | list => cases hk

theorem record_of_other (hk : k ∉ c.key?) (h : Partly (steps root c) fs n out fs') :
    fs'.entryAt (recordPath root k) = fs.entryAt (recordPath root k) :=
  entryAt_of_foreign h fun _ hk' =>
    ⟨fun he => hk (key_recordPath_inj.1 he ▸ hk'), key_recordPath_ne_temporaryPath⟩

def bytes? : Entry → Option Bytes
  | .file b => some b
  | .directory => none

/-- What a directory holds as a store. -/
def content (fs : FileSystem) (root : Path) : Content := fun k =>
  if ValidKey k then (fs.entryAt (recordPath root k)).bind bytes? else none

theorem content_eq_some {b : Bytes} :
    content fs root k = some b ↔ ValidKey k ∧ fs.entryAt (recordPath root k) = some (.file b) := by
  rw [content, Option.ite_none_right_eq_some, Option.bind_eq_some_iff]
  refine and_congr_right fun _ => ⟨?_, fun he => ⟨_, he, rfl⟩⟩
  rintro ⟨e, he, hb⟩
  cases e with
  | file c =>
    cases hb
    exact he
  | directory => cases hb

theorem effect_of_settled {m : Content} (hk : k ∈ c.key?) (hs : Settled root c n) :
    c.effect m k = (leaves c).bind bytes? := by
  cases c with
  | put k b | delete k =>
    cases hk
    exact Function.update_self k _ m
  | get k => simp [Settled, steps] at hs
  | list => cases hk

/-- However a call ends, it has done its work or nothing. -/
theorem content_of_partly (hv : c.Valid) (h : Partly (steps root c) fs n out fs') :
    content fs' root = if Settled root c n then c.effect (content fs root) else content fs root := by
  funext k
  by_cases hmem : k ∈ c.key?
  · rw [content, if_pos (hv k hmem), record_of_partly hmem h]
    by_cases hs : Settled root c n
    · rw [if_pos hs, if_pos hs, effect_of_settled hmem hs]
    · rw [if_neg hs, if_neg hs, content, if_pos (hv k hmem)]
  · have hsame : content fs' root k = content fs root k := by
      rw [content, record_of_other hmem h, content]
    rw [hsame]
    split
    · rw [Call.effect_of_ne hmem]
    · rfl

/-- Once a call is through, the temporary file of its key is gone, if there was one at all. -/
theorem temporary_of_finished (hk : k ∈ c.key?)
    (hnone : fs.entryAt (temporaryPath root k) = none)
    (h : Partly (steps root c) fs n (some (.ok ())) fs') :
    fs'.entryAt (temporaryPath root k) = none := by
  cases c with
  | put k b =>
    cases hk
    obtain ⟨fs₁, -, ⟨-, hout, -⟩ | ⟨-, rfl⟩⟩ := put_cases h
    · exact absurd rfl hout
    · rw [entryAt_put_of_ne key_recordPath_ne_temporaryPath.symm]
      exact entryAt_erase (by simp [temporaryPath])
  | delete k =>
    cases hk
    obtain ⟨-, hout, -⟩ | ⟨-, rfl⟩ := delete_cases h
    · exact absurd rfl hout
    · rw [entryAt_erase_of_ne key_recordPath_ne_temporaryPath.symm, hnone]
  | get k =>
    cases h
    exact hnone
  | list => cases hk

theorem settled_all (hw : c.writes = true) : Settled root c (steps root c).length := by
  cases c with
  | put k b => exact settled_put (n := 2) (by omega)
  | delete k => rw [Settled, List.take_length]; rfl
  | get k | list => cases hw

theorem content_of_finished (hv : c.Valid)
    (h : Partly (steps root c) fs n (some (.ok ())) fs') :
    content fs' root = c.effect (content fs root) := by
  rw [content_of_partly hv h, h.length_of_ok]
  split
  · rfl
  · rename_i hs
    cases c with
    | put k b | delete k => exact absurd (settled_all rfl) hs
    | get k | list => rfl

/-! ## Directories in use -/

/-- The directory is there, and no directory stands in it under the name of a temporary file. -/
structure Usable (fs : FileSystem) (root : Path) : Prop where
  present : fs.Present root
  temporaries : fs.FilesOnly root isTemporary

/-- No temporary file is left. -/
def Swept (fs : FileSystem) (root : Path) : Prop :=
  ∀ name ∈ fs.children root, isTemporary name = false

namespace Usable

theorem temporaryPath (hu : Usable fs root) (hk : ValidKey k) :
    fs.entryAt (temporaryPath root k) ≠ some .directory :=
  hu.temporaries.entryAt_ne (plain_temporaryName hk) (isTemporary_temporaryName hk)

/-- No call makes a directory. -/
theorem directory_of_partly (hu : Usable fs root) (hk : c.Valid)
    (h : Partly (steps root c) fs n out fs') {q : Path} (hq : fs'.entryAt q = some .directory) :
    fs.entryAt q = some .directory := by
  refine h.directory (fun a b hs => ?_) hq
  cases c with
  | put k bytes =>
    simp only [steps, putSteps, List.mem_cons, List.not_mem_nil, or_false] at hs
    rcases hs with hs | hs | hs | hs | hs <;> cases hs
    exact hu.temporaryPath (hk k rfl)
  | delete k =>
    simp only [steps, deleteSteps, List.mem_cons, List.not_mem_nil, or_false] at hs
    rcases hs with hs | hs <;> cases hs
  | get k | list => cases hs

/-- However a call ends, the directory stays in use. -/
theorem partly (hu : Usable fs root) (hk : c.Valid)
    (h : Partly (steps root c) fs n out fs') : Usable fs' root where
  present q hq := by
    rw [entryAt_of_foreign h fun k _ => ⟨Path.key_ne_of_mem_prefixes hq _,
      Path.key_ne_of_mem_prefixes hq _⟩]
    exact hu.present q hq
  temporaries := hu.temporaries.mono fun _ _ => hu.directory_of_partly hk h

theorem follow_put (hu : Usable fs root) (hk : ValidKey k)
    (hr : fs.entryAt (recordPath root k) ≠ some .directory) (b : Bytes) :
    (fs.follow (steps root (.put k b))).1 = .ok () := by
  have hne : Directory.temporaryPath root k ≠ [] := by simp [Directory.temporaryPath]
  have hcreate : fs.create (Directory.temporaryPath root k) =
      .ok (fs.put (Directory.temporaryPath root k) (.file [])) :=
    hu.present.create_child (hu.temporaryPath hk)
  have hrecord : ((fs.put (Directory.temporaryPath root k) (.file [])).put
      (Directory.temporaryPath root k) (.file b)).entryAt (recordPath root k) ≠ some .directory := by
    rw [entryAt_put_of_ne key_recordPath_ne_temporaryPath,
      entryAt_put_of_ne key_recordPath_ne_temporaryPath]
    exact hr
  simp only [steps, putSteps, follow, Step.apply, hcreate, rename_file (entryAt_put hne) hrecord]

theorem follow_delete_file (hu : Usable fs root) {b : Bytes}
    (he : fs.entryAt (recordPath root k) = some (.file b)) :
    (fs.follow (steps root (.delete k))).1 = .ok () := by
  have hremove : fs.remove (recordPath root k) = .ok _ := hu.present.remove_file he
  simp only [steps, deleteSteps, follow, Step.apply, hremove]

theorem follow_delete_none (hu : Usable fs root) (he : fs.entryAt (recordPath root k) = none) :
    fs.follow (steps root (.delete k)) = (.error .notFound, fs) := by
  have hremove : fs.remove (recordPath root k) = _ := hu.present.remove_none he
  simp only [steps, deleteSteps, follow, Step.apply, hremove]

end Usable

/-! ## Reading -/

/-- What a look at a record gives. -/
def found : Option Entry → Except Error (Option Bytes)
  | some (.file b) => .ok (some b)
  | some .directory => .error (osFailure .isDirectory)
  | none => .ok none

theorem Usable.get (hu : Usable fs root) (k : String) :
    get ⟨fs, root⟩ k = found (fs.entryAt (recordPath root k)) := by
  have hblocked : fs.blocked (recordPath root k) = none := hu.present.not_blocked_child _
  rw [Directory.get, FileSystem.read, hblocked]
  cases fs.entryAt (recordPath root k) with
  | none => rfl
  | some e => cases e <;> rfl

/-- The keys whose records stand in the directory. -/
def listed (fs : FileSystem) (root : Path) : List String := (fs.children root).filterMap keyOf?

theorem Usable.keys (hu : Usable fs root) : keys ⟨fs, root⟩ = .ok (listed fs root) := by
  rw [Directory.keys, hu.present.list]
  rfl

theorem mem_listed :
    k ∈ listed fs root ↔ ValidKey k ∧ (fs.entryAt (recordPath root k)).isSome := by
  rw [listed, List.mem_filterMap]
  constructor
  · rintro ⟨name, hmem, hname⟩
    obtain ⟨hk, rfl⟩ := keyOf?_eq_some.1 hname
    exact ⟨hk, (mem_children.1 hmem).2⟩
  · rintro ⟨hk, he⟩
    exact ⟨recordName k, mem_children.2 ⟨plain_recordName hk, he⟩, keyOf?_eq_some.2 ⟨hk, rfl⟩⟩

theorem nodup_listed (fs : FileSystem) (root : Path) : (listed fs root).Nodup := by
  refine (nodup_children fs root).filterMap fun name name' k hk hk' => ?_
  rw [(keyOf?_eq_some.1 hk).2, (keyOf?_eq_some.1 hk').2]

/-! ## Opening -/

/-- No file stands where the directory or one above it has to be, and no directory where a sweep
looks for temporary files. -/
structure Openable (fs : FileSystem) (root : Path) : Prop where
  free : fs.Free root
  temporaries : fs.FilesOnly root isTemporary

theorem Usable.openable (hu : Usable fs root) : Openable fs root := ⟨hu.present.free, hu.temporaries⟩

/-- What opening changes: directories that were missing are made, temporary files removed. -/
structure Opened (fs fs₁ : FileSystem) (root : Path) : Prop where
  usable : Usable fs₁ root
  swept : Swept fs₁ root
  kept : ∀ q : Path, (∀ a ∈ root.prefixes, q.key ≠ a.key) →
    (∀ name ∈ fs.children root, isTemporary name = true → q.key ≠ Path.key (root ++ [name])) →
    fs₁.entryAt q = fs.entryAt q

theorem Opened.record (h : Opened fs fs' root) (k : String) :
    fs'.entryAt (recordPath root k) = fs.entryAt (recordPath root k) := by
  refine h.kept _ (fun a ha => (Path.key_ne_of_mem_prefixes ha _).symm) fun name _ ht hk => ?_
  have hname : name = recordName k := (Path.key_child_inj.1 hk).symm
  rw [hname, not_isTemporary_recordName] at ht
  cases ht

/-- Nothing of what a store holds is lost when its directory is opened. -/
theorem Opened.content (h : Opened fs fs' root) : content fs' root = content fs root := by
  funext k
  rw [Directory.content, h.record k, Directory.content]

/-- The temporary files among the names are gone, and nothing else has changed. -/
structure Cleared (root : Path) (names : List String) (fs fs₁ : FileSystem) : Prop where
  kept : ∀ q : Path, (∀ name ∈ names, isTemporary name = true → q.key ≠ Path.key (root ++ [name])) →
    fs₁.entryAt q = fs.entryAt q
  gone : ∀ name ∈ names, isTemporary name = true → fs₁.entryAt (root ++ [name]) = none
  old : ∀ q e, fs₁.entryAt q = some e → fs.entryAt q = some e

namespace Cleared
variable {names : List String} {name : String} {fs₁ fs₂ : FileSystem}

theorem of_none (h : ∀ name ∈ names, isTemporary name = true → fs.entryAt (root ++ [name]) = none) :
    Cleared root names fs fs :=
  ⟨fun _ _ => rfl, h, fun _ _ he => he⟩

theorem cons (h : Cleared root [name] fs fs₁) (h' : Cleared root names fs₁ fs₂) :
    Cleared root (name :: names) fs fs₂ where
  kept q hq := by
    rw [h'.kept q fun n hn => hq n (List.mem_cons_of_mem _ hn), h.kept q fun n hn => ?_]
    rw [List.mem_singleton.1 hn]
    exact hq name List.mem_cons_self
  gone n hn ht := by
    rcases List.mem_cons.1 hn with rfl | hn
    · have hnone := h.gone n List.mem_cons_self ht
      rw [Option.eq_none_iff_forall_not_mem] at hnone ⊢
      exact fun e he => hnone e (h'.old _ e he)
    · exact h'.gone n hn ht
  old q e he := h.old q e (h'.old q e he)

theorem present (h : Cleared root names fs fs₁) (hp : fs.Present root) : fs₁.Present root := by
  intro q hq
  rw [h.kept q fun _ _ _ => Path.key_ne_of_mem_prefixes hq _]
  exact hp q hq

theorem record (h : Cleared root names fs fs₁) (k : String) :
    fs₁.entryAt (recordPath root k) = fs.entryAt (recordPath root k) := by
  refine h.kept _ fun name _ ht hk => ?_
  have hname : name = recordName k := (Path.key_child_inj.1 hk).symm
  rw [hname, not_isTemporary_recordName] at ht
  cases ht

theorem usable (h : Cleared root names fs fs₁) (hu : Usable fs root) : Usable fs₁ root :=
  ⟨h.present hu.present, hu.temporaries.mono fun _ _ => h.old _ _⟩

end Cleared

/-- One name of a sweep. -/
theorem sweep_cons (hp : fs.Present root) {name : String}
    (hd : isTemporary name = true → fs.entryAt (root ++ [name]) ≠ some .directory)
    (r : List String) (count : Nat) :
    ∃ count₁ fs₁, sweep root (name :: r) count fs = sweep root r count₁ fs₁ ∧
      Cleared root [name] fs fs₁ := by
  cases ht : isTemporary name with
  | false =>
    refine ⟨count, fs, by rw [sweep, ht]; rfl, .of_none fun n hn ht' => ?_⟩
    rw [List.mem_singleton.1 hn, ht] at ht'
    cases ht'
  | true =>
    rw [sweep, if_pos ht]
    cases he : fs.entryAt (root ++ [name]) with
    | none =>
      rw [hp.remove_none he]
      refine ⟨count, fs, rfl, .of_none fun n hn _ => ?_⟩
      rw [List.mem_singleton.1 hn, he]
    | some e =>
      cases e with
      | directory => exact absurd he (hd ht)
      | file b =>
        rw [hp.remove_file he]
        refine ⟨count + 1, fs.erase (root ++ [name]), rfl, ?_, ?_, fun q e => entryAt_erase_eq_some⟩
        · exact fun q hq => entryAt_erase_of_ne (hq name List.mem_cons_self ht)
        · intro n hn _
          rw [List.mem_singleton.1 hn]
          exact entryAt_erase (by simp)

theorem sweep_ok (names : List String) (count : Nat) (hp : fs.Present root)
    (hd : ∀ name ∈ names, isTemporary name = true → fs.entryAt (root ++ [name]) ≠ some .directory) :
    ∃ count' fs₁, sweep root names count fs = (.ok count', fs₁) ∧ Cleared root names fs fs₁ := by
  induction names generalizing count fs with
  | nil => exact ⟨count, fs, rfl, .of_none fun _ h => absurd h List.not_mem_nil⟩
  | cons name r ih =>
    obtain ⟨count₁, fs₁, hone, hcleared⟩ := sweep_cons hp (hd name List.mem_cons_self) r count
    obtain ⟨count', fs₂, hsweep, hrest⟩ := ih count₁ (hcleared.present hp) fun n hn ht he =>
      hd n (List.mem_cons_of_mem _ hn) ht (hcleared.old _ _ he)
    exact ⟨count', fs₂, hone.trans hsweep, hcleared.cons hrest⟩

/-- Opening succeeds. -/
theorem Openable.opens (h : Openable fs root) :
    ∃ fs₁ notices, openAt fs root = (.ok ⟨fs₁, root⟩, fs₁, notices) ∧ Opened fs fs₁ root := by
  obtain ⟨fs₁, hmake, hpresent, hgrown⟩ := h.free.makeDirectories
  have hchild : ∀ name, fs₁.entryAt (root ++ [name]) = fs.entryAt (root ++ [name]) := fun name =>
    hgrown.entryAt_of_ne fun a ha => (Path.key_ne_of_mem_prefixes ha name).symm
  have hmem : ∀ name, name ∈ fs₁.children root ↔ name ∈ fs.children root := fun name => by
    rw [mem_children, mem_children, hchild]
  obtain ⟨count, fs₂, hsweep, hcleared⟩ := sweep_ok (fs₁.children root) 0 hpresent
    fun name hn ht => by
      rw [hchild]
      exact h.temporaries name ((hmem name).1 hn) ht
  have hswept : Swept fs₂ root := by
    intro name hn
    obtain ⟨hplain, he⟩ := mem_children.1 hn
    obtain ⟨e, he⟩ := Option.isSome_iff_exists.1 he
    rw [Bool.eq_false_iff]
    intro ht
    have hbefore : name ∈ fs₁.children root :=
      mem_children.2 ⟨hplain, Option.isSome_of_eq_some (hcleared.old _ _ he)⟩
    rw [hcleared.gone name hbefore ht] at he
    cases he
  have hopen : openAt fs root = (.ok ⟨fs₂, root⟩, fs₂,
      if 0 < count then [.sweptTemporaries count (display root)] else []) := by
    simp only [Directory.openAt, hmake, hpresent.list, hsweep]
  refine ⟨fs₂, _, hopen, ⟨hcleared.present hpresent, fun name hn ht => ?_⟩, hswept,
    fun q hq hq' => ?_⟩
  · rw [hswept name hn] at ht
    cases ht
  · rw [hcleared.kept q fun name hn ht => hq' name ((hmem name).1 hn) ht]
    exact hgrown.entryAt_of_ne hq

/-- Where there is nothing to sweep a sweep does nothing. -/
theorem sweep_of_swept {names : List String} (count : Nat)
    (h : ∀ name ∈ names, isTemporary name = false) : sweep root names count fs = (.ok count, fs) := by
  induction names with
  | nil => rfl
  | cons name r ih =>
    rw [sweep, h name List.mem_cons_self]
    exact ih fun n hn => h n (List.mem_cons_of_mem _ hn)

/-- A directory that is swept is opened as it is. -/
theorem Usable.openAt_of_swept (hu : Usable fs root) (hs : Swept fs root) :
    openAt fs root = (.ok ⟨fs, root⟩, fs, []) := by
  simp only [openAt, hu.present.makeDirectories, hu.present.list, sweep_of_swept 0 hs]
  rfl

end Directory
end PingDelivery.Store
