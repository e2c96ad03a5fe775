import PingDelivery.Proofs.Store.Media

/-! # Stores that cannot be told apart

Whoever holds a store calls it and now and then takes it up again. Two sound stores of the same
content give the same outcomes for the same uses, but for the order of listings, whatever kinds they
are. In particular a directory and a tree do what the map does.
-/

namespace PingDelivery.Store

inductive Use where
  | call (c : Call)
  | reopen

inductive Use.Outcome where
  | called (c : Call) (r : Result c)
  | reopened (r : Except Error Unit)

/-- The same, but for the order of a listing. -/
inductive Use.Outcome.Like : Use.Outcome → Use.Outcome → Prop where
  | same (o : Use.Outcome) : Like o o
  | listed {keys keys' : List String} (h : keys.Perm keys') :
      Like (.called .list (.ok keys)) (.called .list (.ok keys'))

/-- Whatever two stores of the same content answer is alike. -/
theorem Call.Exact.like {m : Content} {c : Call} {a a' : c.Answer} (h : c.Exact m a)
    (h' : c.Exact m a') : Use.Outcome.Like (.called c (.ok a)) (.called c (.ok a')) := by
  cases c with
  | put _ _ | delete _ => exact .same _
  | get _ =>
    cases h
    cases h'
    exact .same _
  | list =>
    obtain ⟨hnodup, hmem⟩ := h
    obtain ⟨hnodup', hmem'⟩ := h'
    exact .listed ((List.perm_ext_iff_of_nodup hnodup hnodup').2 fun k =>
      (hmem k).trans (hmem' k).symm)

namespace Medium
variable {s s' : Medium}

def use (s : Medium) : Use → Use.Outcome × Medium
  | .call c => (.called c (s.serve c).1, (s.serve c).2.1)
  | .reopen => (.reopened s.reopen.1, s.reopen.2)

def outcomes (s : Medium) : List Use → List Use.Outcome
  | [] => []
  | u :: us => (s.use u).1 :: outcomes (s.use u).2 us

def after (s : Medium) : List Use → Medium
  | [] => s
  | u :: us => after (s.use u).2 us

theorem Sound.use (h : s.Sound) (u : Use) : (s.use u).2.Sound := by
  cases u with
  | call c => exact h.serve c
  | reopen =>
    rw [Medium.use, h.reopen]
    exact h

theorem Sound.after (h : s.Sound) (us : List Use) : (s.after us).Sound := by
  induction us generalizing s with
  | nil => exact h
  | cons u us ih => exact ih (h.use u)

/-- One use of two stores of the same content. -/
theorem Sound.use_like (h : s.Sound) (h' : s'.Sound) (hc : s.content = s'.content) (u : Use) :
    Use.Outcome.Like (s.use u).1 (s'.use u).1 ∧ (s.use u).2.content = (s'.use u).2.content := by
  cases u with
  | reopen =>
    rw [Medium.use, Medium.use, h.reopen, h'.reopen]
    exact ⟨.same _, hc⟩
  | call c =>
    by_cases hv : c.Valid
    · obtain ⟨⟨a, ha, hexact⟩, heffect⟩ := h.fulfills hv
      obtain ⟨⟨a', ha', hexact'⟩, heffect'⟩ := h'.fulfills hv
      rw [← hc] at hexact' heffect'
      refine ⟨?_, heffect.trans heffect'.symm⟩
      rw [Medium.use, Medium.use, ha, ha']
      exact hexact.like hexact'
    · obtain ⟨k, hk, hv⟩ := Call.exists_of_not_valid hv
      rw [Medium.use, Medium.use, h.refuses hk hv, h'.refuses hk hv]
      exact ⟨.same _, hc⟩

theorem Sound.outcomes_like (h : s.Sound) (h' : s'.Sound) (hc : s.content = s'.content)
    (us : List Use) : List.Forall₂ Use.Outcome.Like (s.outcomes us) (s'.outcomes us) := by
  induction us generalizing s s' with
  | nil => exact .nil
  | cons u us ih =>
    obtain ⟨hlike, hcontent⟩ := h.use_like h' hc u
    exact .cons hlike (ih (h.use u) (h'.use u) hcontent)

/-- Reading gives what is there. -/
theorem Sound.get (h : s.Sound) (k : String) (b : Bytes) :
    (s.serve (.get k)).1 = .ok (some b) ↔ s.content k = some b := by
  by_cases hv : ValidKey k
  · have hvalid : (Call.get k).Valid := fun k' hk' => Option.some.inj hk' ▸ hv
    obtain ⟨⟨a, ha, hexact⟩, -⟩ := h.fulfills hvalid
    have hread : (s.serve (.get k)).1 = .ok (s.content k) := ha.trans (congrArg Except.ok hexact)
    rw [hread]
    exact ⟨Except.ok.inj, congrArg Except.ok⟩
  · rw [h.refuses (c := .get k) rfl hv]
    refine iff_of_false (fun he => by cases he) fun he => hv ?_
    exact h.valid_of_content (Option.isSome_of_eq_some he)

/-- A listing is exact: it has the keys that can be read. -/
theorem Sound.list (h : s.Sound) :
    ∃ keys : List String, (s.serve .list).1 = .ok keys ∧ keys.Nodup ∧
      ∀ k, k ∈ keys ↔ ∃ b, (s.serve (.get k)).1 = .ok (some b) := by
  have hvalid : Call.list.Valid := fun k hk => by cases hk
  obtain ⟨⟨keys, hkeys, hnodup, hmem⟩, -⟩ := h.fulfills hvalid
  refine ⟨keys, hkeys, hnodup, fun k => (hmem k).trans ?_⟩
  rw [Option.isSome_iff_exists]
  exact exists_congr fun b => (h.get k b).symm

end Medium

/-! ## Files of others -/

namespace Directory
variable {fs : FileSystem} {root : Path}

/-- A path that is neither a record's nor a temporary file's nor the way to the directory. -/
structure Foreign (fs : FileSystem) (root q : Path) : Prop where
  record : ∀ k, ValidKey k → q.key ≠ (recordPath root k).key
  temporary : ∀ name ∈ fs.children root, isTemporary name = true → q.key ≠ Path.key (root ++ [name])
  above : ∀ a ∈ root.prefixes, q.key ≠ a.key

/-- A name of its own directly below the directory. -/
def Child (root p : Path) : Prop :=
  ∃ name, Path.Plain name ∧ name ≠ "." ∧ name ≠ ".." ∧ p = root ++ [name]

/-- No two of the files that a store may write are the same. -/
structure Apart (root : Path) : Prop where
  record : ∀ k, ValidKey k → Child root (recordPath root k)
  temporary : ∀ k, ValidKey k → Child root (temporaryPath root k)
  records : ∀ k k', (recordPath root k).key = (recordPath root k').key → k = k'
  temporaries : ∀ k k', (temporaryPath root k).key = (temporaryPath root k').key → k = k'
  between : ∀ k k', (recordPath root k).key ≠ (temporaryPath root k').key

theorem child_of_length {name : String} (h : Path.Plain name) (hl : 2 < name.toList.length) :
    Child root (root ++ [name]) := by
  refine ⟨name, h, ?_, ?_, rfl⟩ <;>
  · rintro rfl
    revert hl
    decide

theorem apart (root : Path) : Apart root where
  record k hk := child_of_length (plain_recordName hk) (by simp [recordExtension])
  temporary k hk :=
    child_of_length (plain_temporaryName hk) (by simp [temporaryExtension])
  records _ _ := key_recordPath_inj.1
  temporaries _ _ := key_temporaryPath_inj.1
  between _ _ := key_recordPath_ne_temporaryPath

theorem Sound.use {d : Directory} (h : Sound d.files d.root) (u : Use) :
    ∃ d', ((Medium.directory d).use u).2 = .directory d' ∧ Continues d d' := by
  have hsound : (Medium.directory d).Sound := h
  cases u with
  | reopen =>
    rw [Medium.use, hsound.reopen]
    exact ⟨d, rfl, h.continues⟩
  | call c =>
    by_cases hv : c.Valid
    · exact ⟨_, rfl, (h.serves hv).continues⟩
    · obtain ⟨k, hk, hv⟩ := Call.exists_of_not_valid hv
      rw [Medium.use, hsound.refuses hk hv]
      exact ⟨d, rfl, h.continues⟩

/-- Using a directory leaves every path that is no record's as it is. -/
theorem Sound.after {d : Directory} (h : Sound d.files d.root) (us : List Use) :
    ∃ d', (Medium.directory d).after us = .directory d' ∧ Continues d d' := by
  induction us generalizing d with
  | nil => exact ⟨d, rfl, h.continues⟩
  | cons u us ih =>
    obtain ⟨d₁, hd₁, hcontinues⟩ := h.use u
    obtain ⟨d', hd', hrest⟩ := ih hcontinues.sound
    refine ⟨d', ?_, hcontinues.trans hrest⟩
    rw [Medium.after, hd₁, hd']

end Directory

/-- A directory and a tree next to the map, after the same uses. -/
structure Likeness (fs : FileSystem) (root : Path) (m : Memory) (d : Directory) (t : Tree)
    (us : List Use) : Prop where
  directory : List.Forall₂ Use.Outcome.Like ((Medium.directory d).outcomes us)
    ((Medium.memory m).outcomes us)
  tree : List.Forall₂ Use.Outcome.Like ((Medium.tree t).outcomes us) ((Medium.memory m).outcomes us)
  refused : ∀ s ∈ [Medium.memory m, .directory d, .tree t], ∀ c : Call, ∀ k ∈ c.key?,
    ¬ ValidKey k → (s.after us).serve c = (.error (.invalidKey k), s.after us, [])
  listed : ∀ s ∈ [Medium.memory m, .directory d, .tree t],
    ∃ keys : List String, ((s.after us).serve .list).1 = .ok keys ∧ keys.Nodup ∧
      ∀ k, k ∈ keys ↔ ∃ b, ((s.after us).serve (.get k)).1 = .ok (some b)
  files : ∃ d' : Directory, (Medium.directory d).after us = .directory d' ∧
    Directory.Swept d'.files root ∧
    (∀ k b, (d'.serve (.get k)).1 = .ok (some b) ↔
      ValidKey k ∧ d'.files.entryAt (Directory.recordPath root k) = some (.file b)) ∧
    ∀ q, Directory.Foreign fs root q → d'.files.entryAt q = fs.entryAt q

/-- **A directory and a tree do what the map does.** A directory that can be opened, with the records
of the map in it and files of others beside them, and a tree with the same records give the
outcomes of the map for any uses, up to the order of listings. What is there, and is no record's,
stays; only temporary files are removed, when the directory is opened. -/
theorem stores_alike {fs : FileSystem} {root : Path} (ho : Directory.Openable fs root)
    (hr : fs.FilesOnly root Directory.isRecord) {m : Memory} (hm : m.Working)
    (hd : m.records.get? = Directory.content fs root) {t : Tree} (ht : t.Sound)
    (ht' : m.records.get? = t.content) :
    Directory.Apart root ∧ ∃ d notices, Directory.openAt fs root = (.ok d, d.files, notices) ∧
      ∀ us, Likeness fs root m d t us := by
  obtain ⟨fs₁, notices, hopen, hopened⟩ := ho.opens
  refine ⟨Directory.apart root, ⟨fs₁, root⟩, notices, hopen, fun us => ?_⟩
  have hsound : Directory.Sound fs₁ root := hopened.sound hr
  have hmemory : (Medium.memory m).Sound := hm
  have hdirectory : (Medium.directory ⟨fs₁, root⟩).Sound := hsound
  have htree : (Medium.tree t).Sound := ht
  have hall : ∀ s ∈ [Medium.memory m, .directory ⟨fs₁, root⟩, .tree t], (s.after us).Sound := by
    intro s hs
    simp only [List.mem_cons, List.not_mem_nil, or_false] at hs
    rcases hs with rfl | rfl | rfl
    · exact hmemory.after us
    · exact hdirectory.after us
    · exact htree.after us
  refine ⟨hdirectory.outcomes_like hmemory (hopened.content.trans hd.symm) us,
    htree.outcomes_like hmemory ht'.symm us, fun s hs c k hk => (hall s hs).refuses hk,
    fun s hs => (hall s hs).list, ?_⟩
  obtain ⟨d', hafter, hroot, hsound', hkept⟩ := Directory.Sound.after (d := ⟨fs₁, root⟩) hsound us
  have hroot' : d'.root = root := hroot
  refine ⟨d', hafter, hroot' ▸ hsound'.swept, fun k b => ?_, fun q hq => ?_⟩
  · have hmedium : (Medium.directory d').Sound := hsound'
    rw [← hroot', ← Directory.content_eq_some]
    exact hmedium.get k b
  · rw [hkept q hq.record, hopened.kept q hq.above hq.temporary]

/-- A directory with one record, a temporary file left behind and a file of someone else's. -/
def lodging : FileSystem :=
  ⟨Dict.ofList [("q", .directory), ("q/a.ping", .file [1]), ("q/b.tmp", .file [2]),
    ("q/notes.txt", .file [3])]⟩

theorem content_lodging :
    Directory.content lodging ["q"] = Function.update (fun _ => none) "a" (some [1]) := by
  have hlisted : Directory.listed lodging ["q"] = ["a"] := by decide +kernel
  have hrecord : Directory.content lodging ["q"] "a" = some [1] := by decide +kernel
  funext k
  by_cases hk : k = "a"
  · rw [hk, hrecord, Function.update_self]
  · rw [Function.update_of_ne hk, ← Option.not_isSome_iff_eq_none]
    intro hs
    obtain ⟨b, hb⟩ := Option.isSome_iff_exists.1 hs
    obtain ⟨hv, he⟩ := Directory.content_eq_some.1 hb
    have hmem := Directory.mem_listed.2 ⟨hv, Option.isSome_of_eq_some he⟩
    rw [hlisted] at hmem
    exact hk (List.mem_singleton.1 hmem)

theorem stores_alike_lodging :
    ∃ d notices, Directory.openAt lodging ["q"] = (.ok d, d.files, notices) ∧
      ∀ us, Likeness lodging ["q"] (Memory.serve (.put "a" [1]) .empty).2.1 d
        (Tree.serve (.put "a" [1]) .empty).2.1 us := by
  have hv : (Call.put "a" [1]).Valid := fun k hk => Option.some.inj hk ▸ by decide
  have htree : Tree.empty.content = fun _ => none := funext fun k => ite_self none
  have hm := (Memory.Working.empty.fulfills hv).effect
  have ht := (Tree.Sound.empty.fulfills hv).effect
  rw [htree] at ht
  exact (stores_alike ⟨by decide +kernel, by decide +kernel⟩ (by decide +kernel)
    (Memory.healthy.stays _ _ .empty) (hm.trans content_lodging.symm) (Tree.Sound.empty.serve _)
    (hm.trans ht.symm)).2

end PingDelivery.Store
