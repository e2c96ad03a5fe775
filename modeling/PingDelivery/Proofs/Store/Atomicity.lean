import PingDelivery.Proofs.Store.Directory

/-! # Writes that a crash cannot tear

A write to a directory is a list of steps, and the process may stop, or a step fail, at any of them,
even with a file written in part. Whatever is left, the directory can be opened again, and then the
write has been done or it has not, by whether its settling step was carried out. Leftovers of one
crash do not stand in the way of the next write, so this holds of any number of them in a row.

What is put in place is what came to be in the temporary file. A put that loses the end of its value
on the way there hears nothing of it, and publishes the rest.
-/

namespace PingDelivery.Store.Directory
open FileSystem
variable {fs fs' fs₁ : FileSystem} {root : Path} {c c' : Call} {k : String} {n : Nat}
  {out : Option (Except OsError Unit)} {taken : List Step}

/-- What a call that is taken for done may have come to: a put may have lost the end of its value. -/
inductive PassesAs : Call → Call → Prop where
  | whole (c : Call) : PassesAs c c
  | cut {b part : Bytes} (h : part <+: b) (hlast : beforeLast b ≤ part.length) (k : String) :
      PassesAs (.put k b) (.put k part)

/-- Steps that pass for those of a call are the steps of what it has come to. -/
theorem exists_passesAs (h : List.Forall₂ Step.PassesAs (steps root c) taken) :
    ∃ c', PassesAs c c' ∧ taken = steps root c' := by
  cases c with
  | put k b =>
    obtain ⟨_, _, hcreate, hrest, rfl⟩ := List.forall₂_cons_left_iff.1 h
    obtain ⟨_, _, hwrite, hafter, rfl⟩ := List.forall₂_cons_left_iff.1 hrest
    obtain rfl := eq_of_passesAs hafter (by simp)
    cases hcreate
    cases hwrite with
    | whole => exact ⟨_, .whole _, rfl⟩
    | cut hpart hlast => exact ⟨_, .cut hpart hlast k, rfl⟩
  | delete k =>
    obtain rfl := eq_of_passesAs h (by simp [steps, deleteSteps])
    exact ⟨_, .whole _, rfl⟩
  | get k | list =>
    cases h
    exact ⟨_, .whole _, rfl⟩

namespace PassesAs

theorem key?_eq (h : PassesAs c c') : c'.key? = c.key? := by
  cases h <;> rfl

theorem writes_eq (h : PassesAs c c') : c'.writes = c.writes := by
  cases h <;> rfl

theorem valid (h : PassesAs c c') (hv : c.Valid) : c'.Valid := fun k hk => hv k (h.key?_eq ▸ hk)

/-- What a call has come to is settled by the same step. -/
theorem settled_iff (h : PassesAs c c') : Settled root c' n ↔ Settled root c n := by
  have hsame : (steps root c').map settles = (steps root c).map settles := by cases h <;> rfl
  have hany : ∀ l : List Step, l.any settles = (l.map settles).any id := fun l => by
    rw [List.any_map, Function.id_comp]
  rw [Settled, Settled, hany, hany, List.map_take, List.map_take, hsame]

end PassesAs

theorem get_eq_get (hu : Usable fs root) (hu' : Usable fs' root)
    (h : fs'.entryAt (recordPath root k) = fs.entryAt (recordPath root k)) :
    get ⟨fs', root⟩ k = get ⟨fs, root⟩ k := by
  rw [hu.get, hu'.get, h]

/-- What is there when a write has ended in some way and the directory has been opened. -/
structure Survived (root : Path) (c : Call) (fs : FileSystem) (n : Nat)
    (out : Option (Except OsError Unit)) (fs' : FileSystem) (d : Directory) : Prop where
  written : ∀ k ∈ c.key?,
    d.get k = if Settled root c n then found (leaves c) else get ⟨fs, root⟩ k
  others : ∀ k, k ∉ c.key? → d.get k = get ⟨fs, root⟩ k
  finished : out = some (.ok ()) → ∀ k ∈ c.key?,
    get ⟨fs', root⟩ k = found (leaves c) ∧ d.get k = found (leaves c)
  listed : ∀ files ∈ [fs', d.files], ∃ keys, Directory.keys ⟨files, root⟩ = .ok keys ∧
    ∀ k, k ∈ keys ↔ ValidKey k ∧ (files.entryAt (recordPath root k)).isSome
  hidden : ∀ name, isTemporary name = true → keyOf? name = none
  swept : Swept d.files root

/-- A write that is through is there. -/
theorem Usable.get_of_finished (hu : Usable fs root) (hw : c.writes = true) (hv : c.Valid)
    (h : Partly (steps root c) fs n (some (.ok ())) fs') (hk : k ∈ c.key?) :
    Directory.get ⟨fs', root⟩ k = found (leaves c) := by
  have hn := h.length_of_ok
  rw [(hu.partly hv h).get, record_of_partly hk h, if_pos (hn ▸ settled_all hw)]

/-- Left alone, a put takes its steps, and what comes of them is what it says. -/
theorem put_partly (d : Directory) (k : String) (b : Bytes) :
    ∃ n r fs', Partly (steps d.root (.put k b)) d.files n (some r) fs' ∧
      (put d k b).2.1 = ⟨fs', d.root⟩ ∧ ((put d k b).1 = .ok () → r = .ok ()) := by
  obtain ⟨n, hp⟩ := follow_partly (steps d.root (.put k b)) d.files
  cases hf : d.files.follow (steps d.root (.put k b)) with
  | mk r fs' =>
    rw [hf] at hp
    have hput : d.files.follow (putSteps d.root k b) = (r, fs') := hf
    refine ⟨n, r, fs', hp, ?_⟩
    rw [put, hput]
    cases r with
    | ok _ => exact ⟨rfl, fun _ => rfl⟩
    | error e => exact ⟨rfl, fun h => by cases h⟩

/-- Steps of a call that have stopped or failed leave a directory that can be opened. -/
theorem survives (hu : Usable fs root) (hw : c.writes = true) (hv : c.Valid)
    (h : Partly (steps root c) fs n out fs') :
    ∃ d notices, openAt fs' root = (.ok d, d.files, notices) ∧ Survived root c fs n out fs' d := by
  have hu' : Usable fs' root := hu.partly hv h
  obtain ⟨fs₁, notices, hopen, hopened⟩ := hu'.openable.opens
  have hget : ∀ k, get ⟨fs₁, root⟩ k = get ⟨fs', root⟩ k := fun k =>
    get_eq_get hu' hopened.usable (hopened.record k)
  have hfinished : out = some (.ok ()) → ∀ k ∈ c.key?, get ⟨fs', root⟩ k = found (leaves c) :=
    fun hout k hk => hu.get_of_finished hw hv (hout ▸ h) hk
  have hlisted : ∀ {files}, Usable files root → ∃ keys, Directory.keys ⟨files, root⟩ = .ok keys ∧
      ∀ k, k ∈ keys ↔ ValidKey k ∧ (files.entryAt (recordPath root k)).isSome :=
    fun hfiles => ⟨_, hfiles.keys, fun _ => mem_listed⟩
  refine ⟨⟨fs₁, root⟩, notices, hopen, fun k hk => ?_, fun k hk => ?_, fun hout k hk => ?_, ?_,
    fun _ => keyOf?_of_isTemporary, hopened.swept⟩
  · rw [hget, hu'.get, hu.get, record_of_partly hk h]
    split <;> rfl
  · exact (hget k).trans (get_eq_get hu hu' (record_of_other hk h))
  · exact ⟨hfinished hout k hk, (hget k).trans (hfinished hout k hk)⟩
  · intro files hfiles
    simp only [List.mem_cons, List.not_mem_nil, or_false] at hfiles
    rcases hfiles with rfl | rfl
    · exact hlisted hu'
    · exact hlisted hopened.usable

/-- What a call has come to is not what it was asked for, once a value without its end is in place. -/
theorem Survived.iff_of_passesAs {d : Directory} (hs : Survived root c' fs n out fs' d)
    (h : PassesAs c c') (hout : out = some (.ok ()) → Settled root c n) :
    Survived root c fs n out fs' d ↔ steps root c' = steps root c ∨ ¬ Settled root c n := by
  cases h with
  | whole => exact ⟨fun _ => .inl rfl, fun _ => hs⟩
  | @cut b part hpart hlast k =>
    have hsame : Settled root (.put k part) n ↔ Settled root (.put k b) n :=
      (PassesAs.cut hpart hlast k).settled_iff
    constructor
    · intro hc
      by_cases hset : Settled root (.put k b) n
      · have hwhole := hc.written k rfl
        have hcut := hs.written k rfl
        rw [if_pos hset] at hwhole
        rw [if_pos (hsame.2 hset), hwhole] at hcut
        obtain rfl : b = part := by simpa [leaves, found] using hcut
        exact .inl rfl
      · exact .inr hset
    · rintro (he | hset)
      · obtain rfl : part = b := by simpa [steps, putSteps] using he
        exact hs
      · refine ⟨fun k' hk => ?_, hs.others, fun ho => absurd (hout ho) hset, hs.listed, hs.hidden,
          hs.swept⟩
        rw [if_neg hset, hs.written k' hk, if_neg fun h => hset (hsame.1 h)]

/-- **A write is done or not done, unless the end of its value is lost.** Wherever the steps of a put
or a delete have stopped or failed, opening the directory succeeds, the key has its old value or all
of what the write has come to, the latter only if the renaming or the removal was carried out, and no
other key has changed. That is what was asked for, unless a put has published a value that lost its
end on the way. A put whose steps all do their work and that succeeds has put the new value there. -/
theorem atomic_but_for_lost_end (hu : Usable fs root) (hw : c.writes = true) (hv : c.Valid)
    (ht : List.Forall₂ Step.PassesAs (steps root c) taken) (h : Partly taken fs n out fs') :
    (∃ c' d notices, PassesAs c c' ∧ taken = steps root c' ∧
      openAt fs' root = (.ok d, d.files, notices) ∧ Survived root c' fs n out fs' d ∧
      (Survived root c fs n out fs' d ↔ taken = steps root c ∨ ¬ Settled root c n)) ∧
    ∀ k b, c = .put k b → (put ⟨fs, root⟩ k b).1 = .ok () →
      (put ⟨fs, root⟩ k b).2.1.get k = .ok (some b) := by
  constructor
  · obtain ⟨c', hpass, rfl⟩ := exists_passesAs ht
    have hw' : c'.writes = true := hpass.writes_eq ▸ hw
    obtain ⟨d, notices, hopen, hs⟩ := survives hu hw' (hpass.valid hv) h
    have hout : out = some (.ok ()) → Settled root c n := by
      rintro rfl
      exact hpass.settled_iff.1 (h.length_of_ok ▸ settled_all hw')
    exact ⟨c', d, notices, hpass, rfl, hopen, hs, hs.iff_of_passesAs hpass hout⟩
  · rintro k b rfl hok
    obtain ⟨m, r, fs₂, hp, hd, hr⟩ := put_partly ⟨fs, root⟩ k b
    rw [hr hok] at hp
    rw [hd]
    exact hu.get_of_finished hw hv hp rfl

/-- A directory with a record and a temporary file that an earlier put has left behind. -/
def wreck : FileSystem :=
  ⟨Dict.ofList [("q", .directory), ("q/a.ping", .file [1]), ("q/a.tmp", .file [9])]⟩

theorem usable_wreck : Usable wreck ["q"] := ⟨by decide +kernel, by decide +kernel⟩

/-- The process stops with one of two bytes written. -/
theorem torn_write_survived :
    ∃ c' d notices, PassesAs (.put "a" [2, 3]) c' ∧ steps ["q"] (.put "a" [2, 3]) = steps ["q"] c' ∧
      openAt ((wreck.put ["q", "a.tmp"] (.file [])).put ["q", "a.tmp"] (.file [2])) ["q"] =
        (.ok d, d.files, notices) ∧
      Survived ["q"] c' wreck 1 none
        ((wreck.put ["q", "a.tmp"] (.file [])).put ["q", "a.tmp"] (.file [2])) d ∧
      (Survived ["q"] (.put "a" [2, 3]) wreck 1 none
        ((wreck.put ["q", "a.tmp"] (.file [])).put ["q", "a.tmp"] (.file [2])) d ↔
          steps ["q"] (.put "a" [2, 3]) = steps ["q"] (.put "a" [2, 3]) ∨
            ¬ Settled ["q"] (.put "a" [2, 3]) 1) := by
  have hcreate : wreck.create ["q", "a.tmp"] = .ok (wreck.put ["q", "a.tmp"] (.file [])) :=
    usable_wreck.present.create_child (by decide +kernel)
  have hpart : [2] <+: ([2, 3] : Bytes) := ⟨[3], rfl⟩
  have hv : (Call.put "a" [2, 3]).Valid := fun k hk => Option.some.inj hk ▸ by decide
  exact (atomic_but_for_lost_end usable_wreck rfl hv (List.forall₂_same.2 fun _ _ => .whole _)
    (.step hcreate (.torn hpart _ _ _))).1

/-- The disk is full when the second of two bytes is to be written. The put succeeds, and the record
has neither its old value nor the new one. -/
theorem torn_write_published : ∃ taken fs' d notices,
    List.Forall₂ Step.PassesAs (steps ["q"] (.put "a" [2, 3])) taken ∧
      Partly taken wreck 5 (some (.ok ())) fs' ∧ openAt fs' ["q"] = (.ok d, d.files, notices) ∧
      get ⟨wreck, ["q"]⟩ "a" = .ok (some [1]) ∧ d.get "a" = .ok (some [2]) := by
  have hpart : [2] <+: ([2, 3] : Bytes) := ⟨[3], rfl⟩
  have hlost : List.Forall₂ Step.PassesAs (steps ["q"] (.put "a" [2, 3])) (steps ["q"] (.put "a" [2])) :=
    .cons (.whole _) (.cons (.cut hpart (by decide) _) (.cons (.whole _) (.cons (.whole _)
      (.cons (.whole _) .nil))))
  have hv : (Call.put "a" [2]).Valid := fun k hk => Option.some.inj hk ▸ by decide
  have hok : (wreck.follow (steps ["q"] (.put "a" [2]))).1 = .ok () :=
    usable_wreck.follow_put (by decide) (by decide +kernel) [2]
  obtain ⟨n, hp⟩ := follow_partly (steps ["q"] (.put "a" [2])) wreck
  rw [hok] at hp
  obtain rfl := hp.length_of_ok
  obtain ⟨d, notices, hopen, hs⟩ := survives usable_wreck rfl hv hp
  refine ⟨_, _, d, notices, hlost, hp, hopen, ?_, (hs.finished rfl "a" rfl).2⟩
  rw [usable_wreck.get]
  decide +kernel

/-! ## Crash after crash -/

/-- What may befall a directory, and what the writes that were done have come to: calls that end in
some way, and openings that get through a part of the names. -/
inductive Endured (root : Path) (fs : FileSystem) : List Call → FileSystem → Prop where
  | nil : Endured root fs [] fs
  | call {cs : List Call} {c c' : Call} {n : Nat} {out : Option (Except OsError Unit)}
      {fs₁ fs₂ : FileSystem} (h : Endured root fs cs fs₁) (hv : c.Valid) (hc : PassesAs c c')
      (hp : Partly (steps root c') fs₁ n out fs₂) :
      Endured root fs (cs ++ if Settled root c n then [c'] else []) fs₂
  | opening {cs : List Call} {fs₁ : FileSystem} (h : Endured root fs cs fs₁) (j : Nat) :
      Endured root fs cs (sweep root ((fs₁.children root).take j) 0 fs₁).2

/-- What the writes come to one after another. -/
def replay (cs : List Call) (m : Content) : Content := cs.foldl (fun m c => c.effect m) m

/-- A sweep that is broken off. -/
theorem Usable.cleared (hu : Usable fs root) (j : Nat) :
    Cleared root ((fs.children root).take j) fs
      (sweep root ((fs.children root).take j) 0 fs).2 := by
  obtain ⟨count, fs₁, hsweep, hcleared⟩ := sweep_ok ((fs.children root).take j) 0 hu.present
    fun name hmem => hu.temporaries name (List.mem_of_mem_take hmem)
  rw [hsweep]
  exact hcleared

namespace Endured
variable {cs : List Call}

theorem usable (h : Endured root fs cs fs') (hu : Usable fs root) : Usable fs' root := by
  induction h with
  | nil => exact hu
  | call _ hv hc hp ih => exact ih.partly (hc.valid hv) hp
  | opening _ j ih => exact (ih.cleared j).usable ih

/-- A directory holds what the writes that were done have come to, and nothing of the others. -/
theorem content (h : Endured root fs cs fs') (hu : Usable fs root) :
    content fs' root = replay cs (content fs root) := by
  induction h with
  | nil => rfl
  | @call cs c c' n out fs₁ fs₂ h hv hc hp ih =>
    -- a call that was not settled is not replayed, and has left the content as it was
    rw [content_of_partly (hc.valid hv) hp, ih, replay, replay, List.foldl_append]
    simp only [hc.settled_iff]
    split <;> rfl
  | opening h j ih =>
    rw [← ih]
    funext k
    rw [Directory.content, ((h.usable hu).cleared j).record k, Directory.content]

/-- After any number of crashes the directory is opened, and nothing is left of them. -/
theorem opens (h : Endured root fs cs fs') (hu : Usable fs root) :
    ∃ d notices, openAt fs' root = (.ok d, d.files, notices) ∧ d.root = root ∧
      Usable d.files root ∧ Swept d.files root ∧
      Directory.content d.files root = replay cs (Directory.content fs root) := by
  obtain ⟨fs₁, notices, hopen, hopened⟩ := (h.usable hu).openable.opens
  exact ⟨⟨fs₁, root⟩, notices, hopen, rfl, hopened.usable, hopened.swept,
    hopened.content.trans (h.content hu)⟩

end Endured

end PingDelivery.Store.Directory
