import PingDelivery.Proofs.Store.Directory
import PingDelivery.Proofs.Text.Utf8
import PingDelivery.Store.Faulty

/-! # Every medium is a map

Each kind of store is seen as its content. From a sound state a call with a valid key is fulfilled:
its answer is what the content says, and the content afterwards is what the call makes of it. A call
with an invalid key is refused and nothing is changed. Nothing else about a medium is needed to
compare it with another.
-/

namespace PingDelivery.Store

namespace Call

/-- What the content says to a call. A listing may come in any order. -/
def Exact (m : Content) : (c : Call) → c.Answer → Prop
  | put _ _, _ | delete _, _ => True
  | get k, a => a = m k
  | list, (keys : List String) => keys.Nodup ∧ ∀ k, k ∈ keys ↔ (m k).isSome

end Call

theorem Call.exists_of_not_valid {c : Call} (h : ¬ c.Valid) : ∃ k ∈ c.key?, ¬ ValidKey k := by
  rw [Call.Valid] at h
  push Not at h
  exact h

theorem Call.Exact.truthful {m : Content} {c : Call} {a : c.Answer} (h : c.Exact m a) :
    c.Truthful m a := by
  cases c with
  | put _ _ | delete _ => trivial
  | get k => exact h
  | list => exact ⟨h.1, fun k => (h.2 k).2⟩

structure Fulfilled (c : Call) (m : Content) (r : Result c) (m' : Content) : Prop where
  answer : ∃ a, r = .ok a ∧ c.Exact m a
  effect : m' = c.effect m

/-! ## The map -/

namespace Memory
variable {m : Memory} {c : Call}

theorem Working.fulfills (h : Working m) (hc : c.Valid) :
    Fulfilled c m.records.get? (Memory.serve c m).1 (Memory.serve c m).2.1.records.get? := by
  rw [h.serve c]
  cases c with
  | put k b =>
    simp only [Memory.answer, if_pos (hc k rfl)]
    refine ⟨⟨(), rfl, trivial⟩, funext fun k' => ?_⟩
    simp only [Dict.get?_insert, Call.effect, Function.update_apply]
  | get k =>
    simp only [Memory.answer, if_pos (hc k rfl)]
    exact ⟨⟨_, rfl, rfl⟩, rfl⟩
  | delete k =>
    simp only [Memory.answer, if_pos (hc k rfl)]
    refine ⟨⟨(), rfl, trivial⟩, funext fun k' => ?_⟩
    simp only [Dict.get?_erase, Call.effect, Function.update_apply]
  | list => exact ⟨⟨m.records.keys, rfl, m.records.nodup_keys, fun _ => Dict.mem_keys⟩, rfl⟩

theorem Working.refuses (h : Working m) {k : String} (hk : k ∈ c.key?) (hv : ¬ ValidKey k) :
    Memory.serve c m = (.error (.invalidKey k), m, []) := by
  rw [h.serve c]
  cases c with
  | put _ _ | get _ | delete _ =>
    cases hk
    simp only [Memory.answer, if_neg hv]
  | list => cases hk

end Memory

/-! ## The tree -/

namespace Tree
variable {t : Tree} {c : Call} {k k' : String}

theorem ofHex?_hex (b : Bytes) : Bytes.ofHex? b.hex = some b := by
  rw [Bytes.ofHex?, Bytes.hex, String.toList_ofList, Bytes.ofHexChars?_hexChars]

theorem slot_inj : slot k = slot k' ↔ k = k' := by
  refine ⟨fun h => ?_, congrArg slot⟩
  have hb := congrArg Bytes.ofHex? h
  rw [slot, slot, ofHex?_hex, ofHex?_hex] at hb
  have ht := congrArg Bytes.text? (Option.some.inj hb)
  rw [Bytes.text?_ofText, Bytes.text?_ofText] at ht
  exact Option.some.inj ht

/-- The slots are those of keys of bytes, which anyone may have written. -/
def Proper (t : Tree) : Prop := ∀ s ∈ t.records.keys, ∃ raw : Bytes, s = raw.hex

/-- What is held under a key that is text, whether the store takes it or not. -/
def held (t : Tree) : Content := fun k => t.records.get? (slot k)

theorem Proper.slot_of_key (h : Proper t) {s : String} (hs : s ∈ t.records.keys)
    (hk : (Bytes.ofHex? s).bind Bytes.text? = some k) : s = slot k := by
  obtain ⟨raw, rfl⟩ := h s hs
  rw [ofHex?_hex, Option.bind_some] at hk
  rw [slot, Bytes.ofText_of_text? hk]

theorem Proper.mem_keys (h : Proper t) : k ∈ t.keys ↔ (t.held k).isSome := by
  rw [Tree.keys, List.mem_filterMap, held]
  constructor
  · rintro ⟨s, hs, hk⟩
    obtain rfl := h.slot_of_key hs hk
    exact Dict.mem_keys.1 hs
  · intro hheld
    refine ⟨slot k, Dict.mem_keys.2 hheld, ?_⟩
    rw [slot, ofHex?_hex, Option.bind_some, Bytes.text?_ofText]

theorem Proper.nodup_keys (h : Proper t) : t.keys.Nodup := by
  rw [Tree.keys, List.Nodup, List.pairwise_filterMap]
  -- slots that read as the same key are the slot of that key
  refine t.records.nodup_keys.imp_of_mem fun {s s'} hs hs' hne k hk k' hk' he => hne ?_
  rw [h.slot_of_key hs hk, h.slot_of_key hs' hk', he]

/-- Keys that are text are those of a store. Others may have written keys that are not text. -/
structure Sound (t : Tree) : Prop where
  valid : ∀ h ∈ t.records.keys, ∃ raw : Bytes, h = raw.hex ∧ ∀ k, raw.text? = some k → ValidKey k

theorem Sound.empty : Sound .empty := ⟨fun _ h => absurd h List.not_mem_nil⟩

theorem Sound.proper (h : Sound t) : Proper t := fun s hs =>
  (h.valid s hs).imp fun _ hraw => hraw.1

def content (t : Tree) : Content := fun k => if ValidKey k then t.records.get? (slot k) else none

theorem Sound.held_eq (h : Sound t) : t.held = t.content := by
  funext k
  rw [held, content]
  split
  · rfl
  · rename_i hv
    refine Option.not_isSome_iff_eq_none.1 fun hsome => hv ?_
    obtain ⟨raw, hslot, hraw⟩ := h.valid _ (Dict.mem_keys.2 hsome)
    have hb := congrArg Bytes.ofHex? hslot
    rw [slot, ofHex?_hex, ofHex?_hex] at hb
    exact hraw k (Option.some.inj hb ▸ Bytes.text?_ofText k)

theorem Sound.mem_keys (h : Sound t) : k ∈ t.keys ↔ (t.content k).isSome :=
  h.held_eq ▸ h.proper.mem_keys

theorem Sound.nodup_keys (h : Sound t) : t.keys.Nodup := h.proper.nodup_keys

theorem Sound.fulfills (h : Sound t) (hc : c.Valid) :
    Fulfilled c t.content (serve c t).1 (serve c t).2.1.content := by
  cases c with
  | put k b =>
    have hk : ValidKey k := hc k rfl
    simp only [serve, if_pos hk]
    refine ⟨⟨(), rfl, trivial⟩, funext fun k' => ?_⟩
    simp only [content, Dict.get?_insert, slot_inj, Call.effect, Function.update_apply]
    by_cases he : k' = k
    · rw [if_pos he, if_pos he, if_pos (he ▸ hk)]
    · rw [if_neg he, if_neg he]
  | get k =>
    have hk : ValidKey k := hc k rfl
    simp only [serve, if_pos hk]
    exact ⟨⟨_, rfl, (if_pos hk).symm⟩, rfl⟩
  | delete k =>
    have hk : ValidKey k := hc k rfl
    simp only [serve, if_pos hk]
    refine ⟨⟨(), rfl, trivial⟩, funext fun k' => ?_⟩
    simp only [content, Dict.get?_erase, slot_inj, Call.effect, Function.update_apply]
    by_cases he : k' = k
    · rw [if_pos he, if_pos he, ite_self]
    · rw [if_neg he, if_neg he]
  | list => exact ⟨⟨t.keys, rfl, h.nodup_keys, fun _ => h.mem_keys⟩, rfl⟩

theorem refuses (t : Tree) {k : String} (hk : k ∈ c.key?) (hv : ¬ ValidKey k) :
    serve c t = (.error (.invalidKey k), t, []) := by
  cases c with
  | put _ _ | get _ | delete _ =>
    cases hk
    simp only [serve, if_neg hv]
  | list => cases hk

theorem Sound.serve (h : Sound t) (c : Call) : Sound (serve c t).2.1 := by
  cases c with
  | put k b =>
    by_cases hk : ValidKey k
    · simp only [Tree.serve, if_pos hk]
      refine ⟨fun s hs => ?_⟩
      rcases Dict.mem_keys_insert hs with rfl | hs
      · refine ⟨Bytes.ofText k, rfl, fun k' hk' => ?_⟩
        rw [Bytes.text?_ofText] at hk'
        cases hk'
        exact hk
      · exact h.valid s hs
    · simp only [Tree.serve, if_neg hk]
      exact h
  | delete k =>
    by_cases hk : ValidKey k
    · simp only [Tree.serve, if_pos hk]
      exact ⟨fun s hs => h.valid s (Dict.mem_keys_erase hs)⟩
    · simp only [Tree.serve, if_neg hk]
      exact h
  | get k | list => exact h

end Tree

/-! ## The directory -/

namespace Directory
open FileSystem
variable {fs fs' : FileSystem} {root : Path} {c : Call} {k : String} {n : Nat}

/-- A directory in use, with no directory under the name of a record and nothing to sweep. -/
structure Sound (fs : FileSystem) (root : Path) : Prop extends Usable fs root where
  records : fs.FilesOnly root isRecord
  swept : Swept fs root

namespace Sound

theorem record_ne (h : Sound fs root) (hk : ValidKey k) :
    fs.entryAt (recordPath root k) ≠ some .directory :=
  h.records.entryAt_ne (plain_recordName hk) (isRecord_iff.2 ⟨k, hk, rfl⟩)

theorem found (h : Sound fs root) (hk : ValidKey k) :
    found (fs.entryAt (recordPath root k)) = .ok (content fs root k) := by
  have hd := h.record_ne hk
  rw [content, if_pos hk]
  cases he : fs.entryAt (recordPath root k) with
  | none => rfl
  | some e =>
    cases e with
    | file b => rfl
    | directory => exact absurd he hd

/-- The keys listed are those that have a value. -/
theorem mem_listed (h : Sound fs root) : k ∈ listed fs root ↔ (content fs root k).isSome := by
  rw [Directory.mem_listed, content]
  constructor
  · rintro ⟨hk, hs⟩
    obtain ⟨e, he⟩ := Option.isSome_iff_exists.1 hs
    cases e with
    | file b =>
      rw [if_pos hk, he]
      rfl
    | directory => exact absurd he (h.record_ne hk)
  · intro hs
    by_cases hk : ValidKey k
    · rw [if_pos hk] at hs
      exact ⟨hk, Option.isSome_of_isSome_bind hs⟩
    · rw [if_neg hk] at hs
      cases hs

theorem temporary_eq_none (h : Sound fs root) (hk : ValidKey k) :
    fs.entryAt (temporaryPath root k) = none := by
  rw [← Option.not_isSome_iff_eq_none]
  intro hs
  have hfalse := h.swept (temporaryName k) (mem_children.2 ⟨plain_temporaryName hk, hs⟩)
  rw [isTemporary_temporaryName hk] at hfalse
  cases hfalse

/-- A call that is taken to its end changes no path but that of its own record. -/
theorem entryAt_of_finished (h : Sound fs root) (hv : c.Valid)
    (hp : Partly (steps root c) fs n (some (.ok ())) fs') {q : Path}
    (hq : ∀ k, ValidKey k → q.key ≠ (recordPath root k).key) : fs'.entryAt q = fs.entryAt q := by
  by_cases htmp : ∃ k ∈ c.key?, q.key = (temporaryPath root k).key
  · obtain ⟨k, hk, hkey⟩ := htmp
    -- the temporary file of the call was not there before, and is not there after it
    have hsame : ∀ fs : FileSystem, fs.entryAt q = fs.entryAt (temporaryPath root k) := fun fs =>
      entryAt_congr_child (plain_temporaryName (hv k hk)).1 hkey
    have hnone := h.temporary_eq_none (hv k hk)
    rw [hsame, hsame, temporary_of_finished hk hnone hp, hnone]
  · exact entryAt_of_foreign hp fun k hk => ⟨hq k (hv k hk), fun he => htmp ⟨k, hk, he⟩⟩

theorem of_finished (h : Sound fs root) (hv : c.Valid)
    (hp : Partly (steps root c) fs n (some (.ok ())) fs') : Sound fs' root where
  toUsable := h.partly hv hp
  records := h.records.mono fun _ _ => h.directory_of_partly hv hp
  swept name hmem := by
    rw [Bool.eq_false_iff]
    intro ht
    obtain ⟨hplain, hs⟩ := mem_children.1 hmem
    rw [h.entryAt_of_finished hv hp fun k _ he => ?_] at hs
    · have hfalse := h.swept name (mem_children.2 ⟨hplain, hs⟩)
      rw [ht] at hfalse
      cases hfalse
    · have hname : name = recordName k := Path.key_child_inj.1 he
      rw [hname, not_isTemporary_recordName] at ht
      cases ht

end Sound

theorem put_of_ok {d : Directory} {b : Bytes}
    (h : d.files.follow (putSteps d.root k b) = (.ok (), fs')) :
    put d k b = (.ok (), { d with files := fs' }, [.storedRecord k b.length]) := by
  rw [put, h]

theorem delete_of_ok {d : Directory} (h : d.files.follow (deleteSteps d.root k) = (.ok (), fs')) :
    delete d k = (.ok (), { d with files := fs' }, [.deletedRecord k]) := by
  rw [delete, h]

/-- A record that is not there need not be deleted. -/
theorem delete_of_notFound {d : Directory}
    (h : d.files.follow (deleteSteps d.root k) = (.error .notFound, fs')) :
    delete d k = (.ok (), d, []) := by
  rw [delete, h]

/-- The directory is sound, and only records have changed in it. -/
structure Continues (d d' : Directory) : Prop where
  root : d'.root = d.root
  sound : Sound d'.files d'.root
  foreign : ∀ q : Path, (∀ k, ValidKey k → q.key ≠ (recordPath d.root k).key) →
    d'.files.entryAt q = d.files.entryAt q

theorem Sound.continues {d : Directory} (h : Sound d.files d.root) : Continues d d :=
  ⟨rfl, h, fun _ _ => rfl⟩

theorem Continues.trans {d d₁ d' : Directory} (h : Continues d d₁) (h' : Continues d₁ d') :
    Continues d d' where
  root := h'.root.trans h.root
  sound := h'.sound
  foreign q hq := by rw [h'.foreign q (by rwa [h.root]), h.foreign q hq]

/-- What comes of a call on a directory. -/
structure Serves (c : Call) (d : Directory) (r : Result c) (d' : Directory) : Prop where
  fulfilled : Fulfilled c (content d.files d.root) r (content d'.files d'.root)
  continues : Continues d d'

namespace Sound
variable {d : Directory}

theorem serves_finished (h : Sound d.files d.root) (hv : c.Valid)
    (hok : (d.files.follow (steps d.root c)).1 = .ok ()) {a : c.Answer}
    (ha : c.Exact (content d.files d.root) a) :
    Serves c d (.ok a) ⟨(d.files.follow (steps d.root c)).2, d.root⟩ := by
  obtain ⟨n, hp⟩ := follow_partly (steps d.root c) d.files
  rw [hok] at hp
  exact ⟨⟨⟨a, rfl, ha⟩, content_of_finished hv hp⟩, rfl, h.of_finished hv hp,
    fun _ => h.entryAt_of_finished hv hp⟩

/-- Nothing has to be done. -/
theorem serves_unchanged (h : Sound d.files d.root) {a : c.Answer}
    (ha : c.Exact (content d.files d.root) a)
    (heffect : c.effect (content d.files d.root) = content d.files d.root) :
    Serves c d (.ok a) d :=
  ⟨⟨⟨a, rfl, ha⟩, heffect.symm⟩, h.continues⟩

theorem serves (h : Sound d.files d.root) (hv : c.Valid) :
    Serves c d (serve c d).1 (serve c d).2.1 := by
  cases c with
  | put k b =>
    have hok := h.follow_put (hv k rfl) (h.record_ne (hv k rfl)) b
    have hput : serve (.put k b) d = (.ok (), ⟨(d.files.follow (steps d.root (.put k b))).2, d.root⟩,
        [.storedRecord k b.length]) :=
      (if_pos (hv k rfl)).trans (put_of_ok (Prod.ext hok rfl))
    rw [hput]
    exact h.serves_finished hv hok trivial
  | get k =>
    have hget : serve (.get k) d = (.ok (content d.files d.root k), d, []) :=
      congrArg (fun r => (r, d, []))
        ((if_pos (hv k rfl)).trans ((h.get k).trans (h.found (hv k rfl))))
    rw [hget]
    exact h.serves_unchanged (c := .get k) rfl rfl
  | delete k =>
    cases he : d.files.entryAt (recordPath d.root k) with
    | none =>
      -- the step fails, and yet the call has done its work: there was nothing to remove
      have hdelete : serve (.delete k) d = (.ok (), d, []) :=
        (if_pos (hv k rfl)).trans (delete_of_notFound (h.follow_delete_none he))
      have hnone : content d.files d.root k = none := by
        rw [content, he, Option.bind_none, ite_self]
      rw [hdelete]
      exact h.serves_unchanged trivial (Function.update_eq_self_iff.2 hnone.symm)
    | some e =>
      cases e with
      | directory => exact absurd he (h.record_ne (hv k rfl))
      | file b =>
        have hok := h.follow_delete_file he
        have hdelete : serve (.delete k) d =
            (.ok (), ⟨(d.files.follow (steps d.root (.delete k))).2, d.root⟩, [.deletedRecord k]) :=
          (if_pos (hv k rfl)).trans (delete_of_ok (Prod.ext hok rfl))
        rw [hdelete]
        exact h.serves_finished hv hok trivial
  | list =>
    have hlist : serve .list d = (.ok (listed d.files d.root), d, []) :=
      congrArg (fun r => (r, d, [])) h.keys
    rw [hlist]
    exact h.serves_unchanged (c := .list) ⟨nodup_listed _ _, fun k => h.mem_listed⟩ rfl

end Sound

theorem refuses (d : Directory) (hk : k ∈ c.key?) (hv : ¬ ValidKey k) :
    serve c d = (.error (.invalidKey k), d, []) := by
  cases c with
  | put _ _ | delete _ =>
    cases hk
    exact if_neg hv
  | get _ =>
    cases hk
    exact congrArg (fun r => (r, d, [])) (if_neg hv)
  | list => cases hk

theorem Opened.sound (h : Opened fs fs' root)
    (hrecords : fs.FilesOnly root isRecord) : Sound fs' root where
  toUsable := h.usable
  records := hrecords.mono fun name hname hd => by
    obtain ⟨k, -, rfl⟩ := isRecord_iff.1 hname
    exact (h.record k).symm.trans hd
  swept := h.swept

end Directory

/-! ## Any of them -/

namespace Medium
variable {s : Medium} {c : Call} {k : String}

def content : Medium → Content
  | memory m => m.records.get?
  | directory d => Directory.content d.files d.root
  | tree t => t.content

def Sound : Medium → Prop
  | memory m => m.Working
  | directory d => Directory.Sound d.files d.root
  | tree t => t.Sound

/-- What a store is when a process lets go of it and takes it up again. -/
def reopen : Medium → Except Error Unit × Medium
  | directory d =>
    let (r, files, _) := Directory.openAt d.files d.root
    (r.map fun _ => (), directory { d with files })
  | s => (.ok (), s)

theorem Sound.fulfills (h : s.Sound) (hv : c.Valid) :
    Fulfilled c s.content (serve c s).1 (serve c s).2.1.content := by
  cases s with
  | memory m => exact Memory.Working.fulfills h hv
  | directory d => exact (Directory.Sound.serves h hv).fulfilled
  | tree t => exact Tree.Sound.fulfills h hv

theorem Sound.refuses (h : s.Sound) (hk : k ∈ c.key?) (hv : ¬ ValidKey k) :
    serve c s = (.error (.invalidKey k), s, []) := by
  cases s with
  | memory m => exact congrArg (fun x => (x.1, memory x.2.1, x.2.2)) (Memory.Working.refuses h hk hv)
  | directory d => exact congrArg (fun x => (x.1, directory x.2.1, x.2.2)) (Directory.refuses d hk hv)
  | tree t => exact congrArg (fun x => (x.1, tree x.2.1, x.2.2)) (Tree.refuses t hk hv)

theorem Sound.serve (h : s.Sound) (c : Call) : (serve c s).2.1.Sound := by
  by_cases hv : c.Valid
  · cases s with
    | memory m => exact Memory.healthy.stays c m h
    | directory d => exact (Directory.Sound.serves h hv).continues.sound
    | tree t => exact Tree.Sound.serve h c
  · obtain ⟨k, hk, hk'⟩ := Call.exists_of_not_valid hv
    rw [h.refuses hk hk']
    exact h

theorem Sound.reopen (h : s.Sound) : s.reopen = (.ok (), s) := by
  cases s with
  | memory m | tree t => rfl
  | directory d =>
    obtain ⟨hu, -, hs⟩ := h
    rw [Medium.reopen, hu.openAt_of_swept hs]
    rfl

theorem Sound.valid_of_content (h : s.Sound) {k : String} (hk : (s.content k).isSome) :
    ValidKey k := by
  cases s with
  | memory m => exact Memory.Working.valid h k (Dict.mem_keys_of_isSome hk)
  | directory d => exact (Directory.mem_listed.1 ((Directory.Sound.mem_listed h).2 hk)).1
  | tree t =>
    by_contra hv
    rw [content, Tree.content, if_neg hv] at hk
    cases hk

/-- Sound media by themselves, which calls do not leave. -/
def soundBackend : Backend {s : Medium // s.Sound} where
  serve c s := ((serve c s.1).1, ⟨(serve c s.1).2.1, s.2.serve c⟩, (serve c s.1).2.2)

/-- A sound medium of any kind is a store in working order. -/
theorem soundBackend_healthy : soundBackend.Healthy (fun s => s.1.content) fun _ => True where
  implements c s := by
    change Served c s.1.content (serve c s.1).1 (serve c s.1).2.1.content
    by_cases hv : c.Valid
    · obtain ⟨⟨a, ha, hexact⟩, heffect⟩ := s.2.fulfills hv
      rw [ha, heffect]
      exact .answered a hexact.truthful
    · obtain ⟨k, hk, hk'⟩ := Call.exists_of_not_valid hv
      rw [s.2.refuses hk hk']
      exact .failed _
  answers c s _ hv := by
    obtain ⟨⟨a, ha, -⟩, -⟩ := s.2.fulfills hv
    exact ⟨a, ha⟩
  lists s _ keys hkeys k hk := by
    have hvalid : Call.list.Valid := fun k hk => by cases hk
    obtain ⟨⟨keys', hkeys', -, hmem⟩, -⟩ := s.2.fulfills hvalid
    cases hkeys'.symm.trans hkeys
    exact s.2.valid_of_content ((hmem k).1 hk)
  stays _ _ _ := trivial

/-- Programs do on it what they do on the medium. -/
theorem run_soundBackend {α : Type} (p : Program α) (s : {s : Medium // s.Sound}) :
    (p.run soundBackend s).1 = (p.run backend s.1).1 ∧
      (p.run soundBackend s).2.1.1 = (p.run backend s.1).2.1 := by
  induction p generalizing s with
  | done a => exact ⟨rfl, rfl⟩
  | tell n p ih => exact ih s
  | call c next ih => exact ih _ _

/-- What is proved of a program over any store holds of it over a sound medium. -/
theorem Sound.run_follows {α : Type} (h : s.Sound) (p : Program α) :
    (p.run backend s).2.1.Sound ∧
      ∃ tr, Follows p s.content tr (some (p.run backend s).1) (p.run backend s).2.1.content ∧
        Untroubled tr := by
  obtain ⟨hvalue, hstate⟩ := run_soundBackend p ⟨s, h⟩
  rw [← hvalue, ← hstate]
  exact ⟨(p.run soundBackend ⟨s, h⟩).2.1.2, soundBackend_healthy.run_follows (s := ⟨s, h⟩) p trivial⟩

end Medium
end PingDelivery.Store
