import PingDelivery.Proofs.Client.World
import PingDelivery.Proofs.Queue.Reopening
import PingDelivery.Proofs.Upload.Steps

/-! # What a deed can come to

A step of a client asks the queue at most once; all else about it only speaks. So a step is `Quiet`
or it comes to what its request comes to, and an opening comes to what the queue's opening comes to,
on a store whose pings the client id has left alone.
-/

namespace PingDelivery
open Store Upload

/-! ## Assembling -/

/-- What assembling a submission can come to: the assembler's verdict and the program that goes with
it. -/
inductive Lifecycle.Assembled (l : Lifecycle) (now : Time.Instant) (fresh : Uuid)
    (s : Lifecycle.Submission) : Except AssemblyError Ping →
      Program ((Ping ⊕ Except LifecycleError (Option Uuid)) × Lifecycle) → Prop where
  | made {p : Ping} (h : p = Assembly.ping (l.request s) l.config s.snapshot fresh now) :
      Assembled l now fresh s (.ok p) (.tell (Assembly.notice p) (.done (.inl p, l)))
  | oversized (t : String) (size limit : Nat) :
      Assembled l now fresh s (.error (.payloadTooLarge t size limit))
        (.tell (.oversized s.documentType size limit)
          (.done (.inr (.ok none), { l with droppedOversized := l.droppedOversized + 1 })))
  | invalid (h : ¬ Submission.IsDocumentType s.documentType) (t : String) :
      Assembled l now fresh s (.error (.invalidDocumentType t))
        (.done (.inr (.error (.assembly (.invalidDocumentType t))), l))
  | empty (h : s.snapshot.isEmpty = true) (t : String) :
      Assembled l now fresh s (.error (.emptySnapshot t))
        (.done (.inr (.error (.assembly (.emptySnapshot t))), l))

theorem Lifecycle.assembled (l : Lifecycle) (now : Time.Instant) (fresh : Uuid)
    (s : Lifecycle.Submission) : l.Assembled now fresh s
      (Assembly.assemble (l.request s) l.config s.snapshot l.maxPingSize fresh now).1
      (l.assemble now fresh s).1 := by
  rw [Lifecycle.assemble, Assembly.assemble]
  by_cases hvalid : Submission.IsDocumentType s.documentType
  · by_cases hempty : s.snapshot.isEmpty = true
    · have hrefusal : Assembly.refusal? (l.request s) s.snapshot =
          some (.emptySnapshot s.documentType) := (if_neg (not_not.2 hvalid)).trans (if_pos hempty)
      rw [hrefusal]
      exact .empty hempty _
    · have hrefusal : Assembly.refusal? (l.request s) s.snapshot = none :=
        (if_neg (not_not.2 hvalid)).trans (if_neg hempty)
      rw [hrefusal]
      simp only
      rw [Assembly.sized]
      split
      · exact .oversized _ _ _
      · exact .made rfl
  · have hrefusal : Assembly.refusal? (l.request s) s.snapshot =
        some (.invalidDocumentType s.documentType) := if_pos hvalid
    rw [hrefusal]
    exact .invalid hvalid _

/-- Assembling only speaks, and registers nothing. -/
theorem quiet_assemble (l : Lifecycle) (now : Time.Instant) (fresh : Uuid)
    (s : Lifecycle.Submission) : Quiet (fun x => x.2.types = l.types) (l.assemble now fresh s).1 := by
  have h := l.assembled now fresh s
  generalize (Assembly.assemble (l.request s) l.config s.snapshot l.maxPingSize fresh now).1 = r at h
  generalize (l.assemble now fresh s).1 = program at h ⊢
  cases h with
  | made _ => exact .tell nofun (.done rfl)
  | oversized _ _ _ => exact .tell nofun (.done rfl)
  | invalid _ _ => exact .done rfl
  | empty _ _ => exact .done rfl

namespace Client

/-- What a step does to the runs under way. -/
inductive RunStep (c : Client) : Action → Reply → List Run.Phase → Prop where
  | same (a : Action) (r : Reply) : RunStep c a r c.runs
  | started : RunStep c .startRun none (c.runs ++ [Run.takeTurn c.desk])
  | moved {i : Nat} {a : Action} {r : Reply} {phase : Run.Phase} (h : phase.Idle) :
      RunStep c a r (c.runs.set i phase)
  | handed {i : Nat} {passed : Bool} {p : Ping} {rest : List Ping} {s : Summary} :
      RunStep c (.look i passed) (some (.ok (.pings (p :: rest)))) (c.runs.set i (.uploading p s))
  | answered {i : Nat} {p : Ping} {o : Outcome} {s : Summary} (h : c.runs[i]? = some (.uploading p s)) :
      RunStep c (.answer i o) none (c.runs.set i (.settling p o s))

/-- What a step has left of the queue and the runs. -/
structure Stepped (c : Client) (a : Action) (r : Reply) (c' : Client) : Prop where
  queue : c'.queue = c.queue
  runs : RunStep c a r c'.runs

theorem Stepped.unchanged (c : Client) (a : Action) (r : Reply) : Stepped c a r c := ⟨rfl, .same a r⟩

theorem quiet_resume (c : Client) (reply : Except QueueError Queue.Reply) (a : Action) :
    Quiet (Stepped c a (some reply)) (c.resume reply a) := by
  cases a with
  | enqueue i passed =>
    simp only [resume]
    split
    · exact .done ⟨rfl, .same _ _⟩
    · exact .tell nofun (.done ⟨rfl, .same _ _⟩)
    · exact .done (.unchanged c _ _)
  | look i passed =>
    simp only [resume]
    split
    · rename_i s hs
      refine (quiet_looked c.desk s reply).bind fun x hx => .done ⟨hx.1, ?_⟩
      obtain ⟨-, hidle | ⟨p, rest, rfl, hphase⟩⟩ := hx
      · exact .moved hidle
      · simp only [hphase]
        exact .handed
    · exact .done (.unchanged c _ _)
  | settle i passed =>
    simp only [resume]
    split
    · rename_i p o s hs
      exact (quiet_settled c.desk p o s reply).bind fun x hx => .done ⟨hx.1, .moved hx.2⟩
    · exact .done (.unchanged c _ _)
  | _ => exact .done (.unchanged c _ _)

theorem quiet_act (c : Client) (a : Action) : Quiet (Stepped c a none) (c.act a) := by
  cases a with
  | assemble i now fresh =>
    simp only [act]
    split
    · refine (quiet_assemble _ _ _ _).bind ?_
      intro x _
      split
      · exact .done ⟨rfl, .same _ _⟩
      · exact .done ⟨rfl, .same _ _⟩
    · exact .done (.unchanged c _ _)
  | takeBack i now =>
    simp only [act]
    split
    · exact .done ⟨rfl, .same _ _⟩
    · exact .done (.unchanged c _ _)
  | startRun => exact .done ⟨rfl, .started⟩
  | look i passed =>
    simp only [act]
    split
    · split
      · exact .done ⟨rfl, .moved (.inr ⟨_, rfl⟩)⟩
      · exact .done (.unchanged c _ _)
    · exact .done (.unchanged c _ _)
  | answer i o =>
    simp only [act]
    split
    · rename_i p s hs
      exact .done ⟨rfl, .answered hs⟩
    · exact .done (.unchanged c _ _)
  | abandon i =>
    simp only [act]
    split
    · exact .done ⟨rfl, .moved (.inr ⟨_, rfl⟩)⟩
    · exact .done (.unchanged c _ _)
  | _ => exact .done ⟨rfl, .same _ _⟩

/-- The runs do not depend on the queue's reply being in place already. -/
theorem RunStep.of_setQueue {c : Client} {q : Queue} {a : Action} {r : Reply}
    {runs : List Run.Phase} (h : (c.setQueue q).RunStep a r runs) : c.RunStep a r runs := by
  cases h with
  | same => exact .same a r
  | started => exact .started
  | moved hidle => exact .moved hidle
  | handed => exact .handed
  | answered hi => exact .answered hi

theorem eq_or_of_set {α : Type} {l : List α} {i j : Nat} {x y : α}
    (h : (l.set i x)[j]? = some y) : y = x ∨ l[j]? = some y := by
  rw [List.getElem?_set] at h
  split at h
  · split at h
    · cases h
      exact .inl rfl
    · cases h
  · exact .inr h

/-- A run that is neither looking nor finished was so before, or has been handed a ping or an answer
by this step. -/
theorem RunStep.busy {c : Client} {a : Action} {r : Reply} {runs : List Run.Phase}
    (h : c.RunStep a r runs) {j : Nat} {phase : Run.Phase} (hj : runs[j]? = some phase)
    (hbusy : ¬ phase.Idle) :
    c.runs[j]? = some phase ∨
      (∃ i passed p rest s, a = .look i passed ∧ r = some (.ok (.pings (p :: rest))) ∧
        phase = .uploading p s) ∨
      ∃ i p o s, a = .answer i o ∧ c.runs[i]? = some (.uploading p s) ∧
        phase = .settling p o s := by
  cases h with
  | same => exact .inl hj
  | started =>
    rw [List.getElem?_append] at hj
    split at hj
    · exact .inl hj
    · have hturn := List.mem_singleton.1 (List.mem_of_getElem? hj)
      exact absurd (hturn ▸ idle_takeTurn c.desk) hbusy
  | moved hidle =>
    rcases eq_or_of_set hj with rfl | hj
    · exact absurd hidle hbusy
    · exact .inl hj
  | handed =>
    rcases eq_or_of_set hj with rfl | hj
    · exact .inr (.inl ⟨_, _, _, _, _, rfl, rfl, rfl⟩)
    · exact .inl hj
  | answered hi =>
    rcases eq_or_of_set hj with rfl | hj
    · exact .inr (.inr ⟨_, _, _, _, rfl, hi, rfl⟩)
    · exact .inl hj

/-- What a whole step can come to. -/
theorem perform_cases {c : Client} {a : Action} {m m' : Content} {tr : List Observed}
    {out : Option (Reply × Client)} (h : Follows (c.perform a) m tr out m') :
    (∀ k, Queue.Undiscarded k tr) ∧
      ((c.asks a = none ∧ m' = m ∧ ∀ r c', out = some (r, c') → r = none ∧ Stepped c a none c') ∨
      ∃ passed r asked, c.asks a = some (passed, r) ∧ Queue.Attended c.queue r m asked m' ∧
        ∀ x c', out = some (x, c') → ∃ reply q, asked = some (reply, q) ∧ x = some reply ∧
          c'.queue = q ∧ c.RunStep a (some reply) c'.runs) := by
  unfold perform at h
  split at h
  · rename_i passed r hasks
    rcases h.of_bind with ⟨rfl, hq⟩ | ⟨⟨reply, q⟩, tr₁, tr₂, m₁, hq, hrest, rfl⟩
    · obtain ⟨hattended, htr⟩ := Queue.attended_of_follows hq
      exact ⟨htr, .inr ⟨passed, r, none, hasks, hattended, fun x c' hx => by cases hx⟩⟩
    · obtain ⟨hattended, htr⟩ := Queue.attended_of_follows hq
      have hquiet : Quiet (fun y => y.1 = some reply ∧ Stepped (c.setQueue q) a (some reply) y.2)
          (((c.setQueue q).resume reply a).bind fun c' => .done (some reply, c')) :=
        (quiet_resume _ reply a).bind fun c' hc' => .done ⟨rfl, hc'⟩
      obtain ⟨rfl, htr', hout⟩ := hquiet.follows hrest
      refine ⟨fun k => (htr k).append (htr' k), .inr ⟨passed, r, _, hasks, hattended, ?_⟩⟩
      intro x c' hx
      obtain ⟨hreply, hqueue, hruns⟩ := hout _ hx
      exact ⟨reply, q, rfl, hreply, hqueue, hruns.of_setQueue⟩
  · rename_i hasks
    have hquiet : Quiet (fun y : Reply × Client => y.1 = none ∧ Stepped c a none y.2)
        ((c.act a).bind fun c' => .done (none, c')) :=
      (quiet_act c a).bind fun c' hc' => .done ⟨rfl, hc'⟩
    obtain ⟨rfl, htr, hout⟩ := hquiet.follows h
    exact ⟨htr, .inl ⟨hasks, rfl, fun r c' hx => hout _ hx⟩⟩

end Client

/-! ## Opening -/

/-- Two contents that hold the same under the keys of pings. -/
def SamePings (m m' : Content) : Prop := ∀ k, Record.isPingKey k = true → m' k = m k

namespace SamePings
variable {m m' : Content}

theorem stored (h : SamePings m m') (k : String) : Queue.stored? m' k = Queue.stored? m k := by
  by_cases hk : Record.isPingKey k = true
  · exact Queue.stored_congr (h k hk)
  · have hnone (m : Content) : Queue.stored? m k = none := by
      cases hs : Queue.stored? m k with
      | none => rfl
      | some p => exact absurd (Queue.isPingKey_of_stored hs) hk
    rw [hnone, hnone]

theorem unreadable (h : SamePings m m') (k : String) :
    Queue.unreadable m' k = Queue.unreadable m k := by
  by_cases hk : Record.isPingKey k = true
  · exact Queue.unreadable_congr (h k hk)
  · rw [Queue.unreadable, Queue.unreadable, Bool.eq_false_iff.2 hk, Bool.false_and, Bool.false_and,
      Bool.false_and, Bool.false_and]

theorem mirror (h : SamePings m m') {l : List Ping} (hm : Queue.Mirror m l) : Queue.Mirror m' l where
  distinct := hm.distinct
  held p hp := (h.stored _).trans (hm.held p hp)
  only k hk hsome := hm.only k hk (h k hk ▸ hsome)

theorem listing (h : SamePings m m') {l : List Ping} (hl : Queue.Listing m' l) :
    Queue.Listing m l where
  distinct := hl.distinct
  mem_iff p := by rw [hl.mem_iff, h.stored]
  sorted := hl.sorted

end SamePings

theorem isPingKey_clientId : Record.isPingKey ClientId.key = false := by decide

theorem ClientId.ofBytes?_text (id : Uuid) : ofBytes? (Bytes.ofText id.text) = some id := by
  rw [ofBytes?, Bytes.text?_ofText]
  exact id.parse?_text

theorem samePings_put (m : Content) (b : Bytes) :
    SamePings m ((Call.put ClientId.key b).effect m) := by
  intro k hk
  refine Function.update_of_ne ?_ _ _
  rintro rfl
  rw [isPingKey_clientId] at hk
  cases hk

theorem samePings_write {id : Uuid} {m m' : Content} {tr : List Observed}
    {out : Option (Except Error Uuid)} (h : Follows (ClientId.write id) m tr out m') :
    SamePings m m' ∧ ∀ k, Queue.Undiscarded k tr := by
  rcases h.of_call with ⟨rfl, rfl, rfl⟩ | ⟨e, tr', rfl, hdone⟩ | ⟨a, tr', rfl, -, htold⟩
  · exact ⟨fun _ _ => rfl, fun _ => .nil⟩
  · obtain ⟨rfl, rfl, -⟩ := hdone.of_done
    exact ⟨fun _ _ => rfl, fun _ => Queue.Undiscarded.nil.called _ _⟩
  · obtain ⟨tr'', hdone, htr⟩ := Queue.follows_told (n := some (.clientIdGenerated id)) htold
    obtain ⟨rfl, rfl, -⟩ := hdone.of_done
    exact ⟨samePings_put m _, fun k => (htr k nofun .nil).called _ _⟩

/-- The client id has a key of its own. -/
theorem samePings_loadOrCreate {fresh : Uuid} {m m' : Content} {tr : List Observed}
    {out : Option (Except Error Uuid × Bool)}
    (h : Follows (ClientId.loadOrCreate fresh) m tr out m') :
    SamePings m m' ∧ ∀ k, Queue.Undiscarded k tr := by
  have hwrite {m m' : Content} {tr : List Observed} {out : Option (Except Error Uuid × Bool)}
      (h : Follows ((ClientId.write fresh).bind fun r => .done (r, true)) m tr out m') :
      SamePings m m' ∧ ∀ k, Queue.Undiscarded k tr := by
    obtain ⟨out', hw, -⟩ := h.of_bind_done
    exact samePings_write hw
  rcases h.of_call with ⟨rfl, rfl, rfl⟩ | ⟨e, tr', rfl, hdone⟩ | ⟨a, tr', rfl, -, hrest⟩
  · exact ⟨fun _ _ => rfl, fun _ => .nil⟩
  · obtain ⟨rfl, rfl, -⟩ := hdone.of_done
    exact ⟨fun _ _ => rfl, fun _ => Queue.Undiscarded.nil.called _ _⟩
  · cases a with
    | none =>
      obtain ⟨hsame, htr⟩ := hwrite hrest
      exact ⟨hsame, fun k => (htr k).called _ _⟩
    | some b =>
      simp only at hrest
      split at hrest
      · obtain ⟨rfl, rfl, -⟩ := hrest.of_done
        exact ⟨fun _ _ => rfl, fun _ => Queue.Undiscarded.nil.called _ _⟩
      · obtain ⟨tr'', hw, htold⟩ := Queue.follows_told (n := some .clientIdUnreadable) hrest
        obtain ⟨hsame, htr⟩ := hwrite hw
        exact ⟨hsame, fun k => (htold k (fun e he => by cases he) (htr k)).called _ _⟩

theorem openOver_cases {config : Configuration} {settings : LifecycleSettings} {fresh : Uuid}
    {m m' : Content} {tr : List Observed}
    {out : Option (Ended LifecycleError (Lifecycle × Queue) × Bool)}
    (h : Follows (Lifecycle.openOver config settings fresh) m tr out m') :
    ∃ m₁ tr₁ opened gone kept, SamePings m m₁ ∧
      Queue.Rebuilt settings.queueConfig m₁ tr₁ opened m' gone kept ∧
      (∀ k, Queue.unreadable m k = false → Queue.Undiscarded k tr) ∧
      ∀ x drew, out = some (.ok x, drew) → ∃ id q, opened = some (.ok q) ∧
        x = (.create config settings id, q) := by
  rcases h.of_bind with ⟨rfl, hid⟩ | ⟨⟨r, drew⟩, tr₁, tr₂, m₁, hid, hrest, rfl⟩
  · obtain ⟨hsame, htr⟩ := samePings_loadOrCreate hid
    exact ⟨m', [], none, [], [], hsame, .unlisted (.inl ⟨rfl, rfl⟩), fun k _ => htr k,
      fun x drew hx => by cases hx⟩
  · obtain ⟨hsame, htr⟩ := samePings_loadOrCreate hid
    cases r with
    | error e =>
      obtain ⟨rfl, rfl, hout⟩ := hrest.of_done
      refine ⟨m', [], none, [], [], hsame, .unlisted (.inl ⟨rfl, rfl⟩), ?_, ?_⟩
      · intro k _
        exact (htr k).append .nil
      · rintro x drew' rfl
        rcases hout with hout | hout <;> cases hout
    | ok id =>
      rcases hrest.of_bind with ⟨rfl, hopen⟩ | ⟨r, tr₃, tr₄, m₂, hopen, hdone, rfl⟩
      · obtain ⟨gone, kept, hrebuilt⟩ := Queue.rebuilt_of_follows hopen
        exact ⟨m₁, _, _, gone, kept, hsame, hrebuilt, fun k hk => (htr k).append
          (hrebuilt.undiscarded k (hsame.unreadable k ▸ hk)), fun x drew' hx => by cases hx⟩
      · obtain ⟨gone, kept, hrebuilt⟩ := Queue.rebuilt_of_follows hopen
        have htr' (k : String) (hk : Queue.unreadable m k = false) :
            Queue.Undiscarded k (tr₁ ++ tr₃) :=
          (htr k).append (hrebuilt.undiscarded k (hsame.unreadable k ▸ hk))
        cases r with
        | error _ | panic =>
          obtain ⟨rfl, rfl, hout⟩ := hdone.of_done
          refine ⟨m₁, _, _, gone, kept, hsame, hrebuilt, ?_, ?_⟩
          · intro k hk
            rw [List.append_nil]
            exact htr' k hk
          · rintro x drew' rfl
            rcases hout with hout | hout <;> cases hout
        | ok q =>
          obtain ⟨tr₅, hdone, htold⟩ :=
            Queue.follows_told (n := some (.opened config.applicationId q.report.restored)) hdone
          obtain ⟨rfl, rfl, hout⟩ := hdone.of_done
          refine ⟨m₁, _, _, gone, kept, hsame, hrebuilt, ?_, ?_⟩
          · intro k hk
            rw [← List.append_assoc]
            exact (htr' k hk).append (htold k nofun .nil)
          · rintro x drew' rfl
            rcases hout with hout | hout <;> cases hout
            exact ⟨id, q, rfl, rfl⟩

/-- The process that a handle's opening leaves. -/
def Opening.withHandle (o : Opening) : Ended LifecycleError (Lifecycle × Queue) × Bool → Option Client
  | (.ok (l, q), _) => some ⟨l, ⟨.create o.config o.settings.plan, q⟩, [], []⟩
  | (.error _, _) | (.panic, _) => none

/-- The process that the opening of the queue alone leaves. -/
def Opening.withQueue (o : Opening) : Ended QueueError Queue → Option Client
  | .ok q => some (.created o.config o.settings o.fresh q)
  | .error _ | .panic => none

/-- **What opening a store comes to**: whatever the client id does first, then what the opening of
the queue comes to. -/
theorem opening_cases {o : Opening} {m m' : Content} {tr : List Observed}
    {out : Option (Option Client)} (h : Follows o.program m tr out m') :
    ∃ m₁ tr₁ opened gone kept, SamePings m m₁ ∧
      Queue.Rebuilt o.settings.queueConfig m₁ tr₁ opened m' gone kept ∧
      (∀ k, Queue.unreadable m k = false → Queue.Undiscarded k tr) ∧
      ∀ c, out = some (some c) → ∃ id q, opened = some (.ok q) ∧
        c = .created o.config o.settings id q := by
  unfold Opening.program at h
  split at h
  · obtain ⟨out', hopen, rfl⟩ := h.of_bind_ends o.withHandle (by rintro ⟨_ | _ | _, _⟩ <;> rfl)
    obtain ⟨m₁, tr₁, opened, gone, kept, hsame, hrebuilt, htr, hx⟩ := openOver_cases hopen
    refine ⟨m₁, tr₁, opened, gone, kept, hsame, hrebuilt, htr, ?_⟩
    intro c hc
    obtain ⟨⟨r, drew⟩, rfl, hr⟩ := Option.map_eq_some_iff.1 hc
    cases r with
    | error _ | panic => cases hr
    | ok x =>
      obtain ⟨id, q, hopened, rfl⟩ := hx x drew rfl
      cases hr
      exact ⟨id, q, hopened, rfl⟩
  · obtain ⟨out', hopen, rfl⟩ := h.of_bind_ends o.withQueue (by rintro (_ | _ | _) <;> rfl)
    obtain ⟨gone, kept, hrebuilt⟩ := Queue.rebuilt_of_follows hopen
    refine ⟨m, _, _, gone, kept, fun _ _ => rfl, hrebuilt, hrebuilt.undiscarded, ?_⟩
    intro c hc
    obtain ⟨r, rfl, hr⟩ := Option.map_eq_some_iff.1 hc
    cases r with
    | error _ | panic => cases hr
    | ok q =>
      cases hr
      exact ⟨o.fresh, q, rfl, rfl⟩

/-! ## Moments -/

namespace Moment

theorem request_of_act {t : Moment} {c : Client} {a : Client.Action} (hc : t.before.client = some c)
    (hd : t.deed = .act a) : t.request = (c.asks a).map (·.2) := by
  rw [request, hc, hd]

theorem accepted_cases {t : Moment} {p : Ping} (h : t.accepted? = some p) :
    t.request = some (.enqueue p) ∧ (t.reply = some (.ok .accepted) ∨
      t.result = none ∧ t.content (Record.key p.id) ≠ t.before.content (Record.key p.id)) := by
  unfold Moment.accepted? at h
  split at h
  · rename_i p' hreq
    split at h
    · rename_i hor
      cases h
      refine ⟨hreq, hor.imp_right fun hdied => ⟨Option.isNone_iff_eq_none.1 hdied.1, hdied.2⟩⟩
    · cases h
  · cases h

/-- How a moment came about: by a step of the process, by an opening where there was none, or by
nothing that touches the store. -/
inductive Course (t : Moment) : Prop where
  | acted {c : Client} {a : Client.Action} {out : Option (Client.Reply × Client)}
      (client : t.before.client = some c) (deed : t.deed = .act a)
      (follows : Follows (c.perform a) t.before.content t.trace out t.content)
      (result : t.result = out.map fun x => (x.1, some x.2))
  | opened {o : Opening} {out : Option (Option Client)}
      (client : t.before.client = none) (deed : t.deed = .opening o)
      (follows : Follows o.program t.before.content t.trace out t.content)
      (result : t.result = out.map fun c => (none, c))
  | idle (content : t.content = t.before.content) (trace : t.trace = [])
      (acts : ∀ a, t.deed = .act a → t.before.client = none)
      (opens : ∀ o, t.deed = .opening o → t.before.client ≠ none)
      (client : t.after.client = none ∨ t.after.client = t.before.client)

theorem Happens.course {t : Moment} (ht : t.Happens) : Course t := by
  obtain ⟨hfollows, -⟩ := ht
  cases hd : t.deed with
  | act a =>
    cases hc : t.before.client with
    | none =>
      rw [hd, hc] at hfollows
      obtain ⟨htr, hm, hout⟩ := hfollows.of_done
      refine .idle hm htr (fun _ _ => hc) (fun o ho => by rw [hd] at ho; cases ho) (.inl ?_)
      rcases hout with hout | hout <;> rw [after, hout] <;> rfl
    | some c =>
      rw [hd, hc] at hfollows
      obtain ⟨out, hout, hresult⟩ := hfollows.of_bind_done
      exact .acted hc hd hout hresult
  | opening o =>
    cases hc : t.before.client with
    | none =>
      rw [hd, hc] at hfollows
      obtain ⟨out, hout, hresult⟩ := hfollows.of_bind_done
      exact .opened hc hd hout hresult
    | some c =>
      rw [hd, hc] at hfollows
      obtain ⟨htr, hm, hout⟩ := hfollows.of_done
      refine .idle hm htr (fun a ha => by rw [hd] at ha; cases ha)
        (fun o _ => by rw [hc]; exact Option.some_ne_none c) ?_
      rcases hout with hout | hout
      · exact .inl (by rw [after, hout]; rfl)
      · exact .inr (by rw [after, hout, hc]; rfl)
  | ending =>
    rw [hd] at hfollows
    obtain ⟨htr, hm, hout⟩ := hfollows.of_done
    refine .idle hm htr (fun a ha => by rw [hd] at ha; cases ha)
      (fun o ho => by rw [hd] at ho; cases ho) (.inl ?_)
    rcases hout with hout | hout <;> rw [after, hout] <;> rfl

/-- How a moment came about that left a process. -/
inductive Lives (t : Moment) (c' : Client) : Prop where
  | acted {c : Client} {a : Client.Action} {r : Client.Reply} (client : t.before.client = some c)
      (deed : t.deed = .act a) (reply : t.reply = r)
      (follows : Follows (c.perform a) t.before.content t.trace (some (r, c')) t.content)
  | opened {o : Opening} {m₁ : Content} {tr₁ : List Observed} {gone kept : List Ping} {id : Uuid}
      {q : Queue} (client : t.before.client = none) (deed : t.deed = .opening o)
      (pings : SamePings t.before.content m₁)
      (rebuilt : Queue.Rebuilt o.settings.queueConfig m₁ tr₁ (some (.ok q)) t.content gone kept)
      (created : c' = .created o.config o.settings id q)
  | idle (client : t.before.client = some c') (content : t.content = t.before.content)
      (acts : ∀ a, t.deed ≠ .act a)

theorem Happens.lives {t : Moment} (ht : t.Happens) {c' : Client} (hc' : t.after.client = some c') :
    t.Lives c' := by
  cases ht.course with
  | @acted c a out hc hd hf hresult =>
    cases out with
    | none =>
      rw [after, hresult] at hc'
      cases hc'
    | some x =>
      obtain ⟨r, c''⟩ := x
      rw [after, hresult] at hc'
      cases hc'
      exact .acted hc hd (by rw [reply, hresult]; rfl) hf
  | @opened o out hc hd hf hresult =>
    obtain ⟨m₁, tr₁, opened, gone, kept, hsame, hrebuilt, -, hout⟩ := opening_cases hf
    cases out with
    | none =>
      rw [after, hresult] at hc'
      cases hc'
    | some c =>
      rw [after, hresult] at hc'
      cases hc'
      obtain ⟨id, q, rfl, hcreated⟩ := hout c' rfl
      exact .opened hc hd hsame hrebuilt hcreated
  | idle hm htr hacts hopens hclient =>
    rcases hclient with hnone | hsame
    · rw [hnone] at hc'
      cases hc'
    · rw [hsame] at hc'
      refine .idle hc' hm ?_
      intro a ha
      rw [hacts a ha] at hc'
      cases hc'

end Moment

/-! ## The mirror over a history -/

def World.Mirrored (w : World) : Prop :=
  ∀ c, w.client = some c → Queue.Mirror w.content c.queue.pings

theorem World.Mirrored.step {t : Moment} (h : t.before.Mirrored) (ht : t.Happens) :
    t.after.Mirrored := by
  intro c' hc'
  change Queue.Mirror t.content c'.queue.pings
  cases ht.lives hc' with
  | @acted c a r hc hd hreply hf =>
    have hmirror := h c hc
    obtain ⟨-, ⟨-, hm, hout⟩ | ⟨passed, r', asked, hasks, hattended, hout⟩⟩ :=
      Client.perform_cases hf
    · obtain ⟨-, hqueue, -⟩ := hout _ _ rfl
      rw [hm, hqueue]
      exact hmirror
    · obtain ⟨reply, q, rfl, -, hqueue, -⟩ := hout _ _ rfl
      have hr : r'.Fits := ht.fits r' (by
        rw [Moment.request_of_act hc hd, hasks]
        rfl)
      obtain ⟨l, hl, hpings⟩ := hmirror.attended hr hattended
      rw [hqueue]
      exact hpings reply q rfl ▸ hl
  | opened hc hd hsame hrebuilt hcreated =>
    subst hcreated
    exact hrebuilt.mirror rfl
  | idle hc hm _ =>
    rw [hm]
    exact h c' hc

theorem History.mirrored {m₀ : Content} {h : List Moment} {w : World}
    (hh : History ⟨m₀, none⟩ h w) : w.Mirrored := by
  induction hh with
  | start => exact fun c hc => by cases hc
  | next _ ht ih => exact ih.step ht

/-! ## Moments that can happen -/

/-- The queue of a store without records, opened by itself. -/
def Opening.plain : Opening where
  config := ⟨"app", ⟨true, [], .domain ['a'], none, [], none, none⟩, "agent", none, 1, false, none,
    by decide, by decide⟩
  settings := .standard
  fresh := .drawn 2
  handle := false

def Client.plain : Client :=
  .created Opening.plain.config .standard Opening.plain.fresh
    (Queue.restored LifecycleSettings.standard.queueConfig [] 0 0)

/-- A process can open the queue of a map that mirrors a list. -/
theorem happens_open {o : Opening} {s : Memory} {l : List Ping} (ho : o.handle = false)
    (hs : s.Working) (hm : Queue.Mirror s.records.get? l) (hl : Queue.Ascending l)
    (hcivil : ∀ p ∈ l, p.createdAt.Civil) (hfit : o.settings.queueConfig.admits l = true) :
    ∃ tr, Moment.Happens ⟨⟨s.records.get?, none⟩, .opening o, tr, some (none, some (.created o.config
      o.settings o.fresh (Queue.restored o.settings.queueConfig l 0 0))), s.records.get?⟩ := by
  obtain ⟨tr, hopen⟩ := Queue.follows_open_memory hs hm hl hfit
  rw [Queue.map_settled_eq_self_iff.2 hcivil] at hopen
  have hclient : Follows o.program s.records.get? (tr ++ [])
      (some (some (.created o.config o.settings o.fresh
        (Queue.restored o.settings.queueConfig l 0 0)))) s.records.get? := by
    rw [Opening.program, ho, if_neg Bool.false_ne_true]
    exact hopen.bind (.done _ _)
  exact ⟨tr ++ [] ++ [], hclient.bind (.done _ _), fun r hr => by cases hr⟩

theorem happens_open_nil : ∃ tr, Moment.Happens
    ⟨⟨fun _ => none, none⟩, .opening .plain, tr, some (none, some .plain), fun _ => none⟩ :=
  happens_open (s := .empty) rfl .empty Queue.mirror_nil .nil
    (fun _ h => absurd h List.not_mem_nil) (Queue.admits_nil _)

/-- A step that asks nothing of the queue and says nothing can happen. -/
theorem happens_act {c c' : Client} {a : Client.Action} (m : Content) (hasks : c.asks a = none)
    (hact : c.act a = .done c') :
    Moment.Happens ⟨⟨m, some c⟩, .act a, [], some (none, some c'), m⟩ := by
  constructor
  · change Follows ((c.perform a).bind _) m [] _ m
    rw [Client.perform, hasks]
    simp only
    rw [hact]
    exact .done _ _
  · intro r hr
    rw [Moment.request_of_act rfl rfl, hasks] at hr
    cases hr

/-- A submission can be assembled whose assembler makes a ping of it. -/
theorem happens_assemble {c : Client} {i : Nat} {now : Time.Instant} {fresh : Uuid}
    {s : Lifecycle.Submission} {p : Ping} {drew : Bool} (m : Content)
    (hi : c.held[i]? = some ⟨s, .drained⟩)
    (hp : Assembly.assemble (c.lifecycle.request s) c.lifecycle.config s.snapshot
      c.lifecycle.maxPingSize fresh now = (.ok p, drew)) :
    Moment.Happens ⟨⟨m, some c⟩, .act (.assemble i now fresh), [.told (Assembly.notice p)],
      some (none, some { c with held := c.held.set i ⟨s, .assembled p⟩ }), m⟩ := by
  have hassemble : (c.lifecycle.assemble now fresh s).1 =
      .tell (Assembly.notice p) (.done (.inl p, c.lifecycle)) := by
    rw [Lifecycle.assemble, hp]
  have hact : c.act (.assemble i now fresh) =
      .tell (Assembly.notice p) (.done { c with held := c.held.set i ⟨s, .assembled p⟩ }) := by
    simp only [Client.act, hi, hassemble]
    rfl
  refine ⟨?_, fun r hr => by cases hr⟩
  change Follows ((c.perform _).bind _) m _ _ m
  rw [Client.perform]
  simp only [Client.asks]
  rw [hact]
  exact .tell (.done _ _)

/-- What the queue does for a caller can happen. -/
theorem happens_request {c : Client} {r : Queue.Request} {q : Queue} {reply : Queue.Reply}
    {m m' : Content} {tr : List Observed}
    (h : Follows (c.queue.attend false r) m tr (some (.ok reply, q)) m') (hr : r.Fits) :
    ∃ tr, Moment.Happens
      ⟨⟨m, some c⟩, .act (.request false r), tr, some (some (.ok reply), some (c.setQueue q)), m'⟩ := by
  have hstep : Follows (c.perform (.request false r)) m (tr ++ [])
      (some (some (.ok reply), c.setQueue q)) m' := by
    refine h.bind ?_
    exact .done _ _
  refine ⟨tr ++ [] ++ [], ?_, fun r' hr' => ?_⟩
  · refine hstep.bind ?_
    exact .done _ _
  · cases hr'
    exact hr

/-- A caller's enqueue of a new ping can be accepted. -/
theorem happens_enqueue {c : Client} {p : Ping} (m : Content) (hq : c.queue.faulted = false)
    (hnew : c.queue.find? p.id = none) (hp : p.Fits) : ∃ tr, Moment.Happens
      ⟨⟨m, some c⟩, .act (.request false (.enqueue p)), tr, some (some (.ok .accepted),
        some (c.setQueue (c.queue.push { p with sequence := c.queue.nextSequence }))),
        (Queue.storePut { p with sequence := c.queue.nextSequence }).effect m⟩ := by
  obtain ⟨tr, henqueue⟩ := Queue.follows_enqueue hq hnew m
  refine happens_request henqueue ?_
  intro p' hp'
  cases hp'
  exact hp

/-- Whatever can happen the process may also not live to see. -/
theorem Moment.Happens.die {t : Moment} (h : t.Happens) : Moment.Happens { t with result := none } :=
  ⟨h.follows.die, h.fits⟩

/-- A submission is not queued where the queue refuses its ping. -/
theorem happens_refuse {c : Client} {i : Nat} {s : Lifecycle.Submission} {p : Ping} {q : Queue}
    {e : QueueError} {m m' : Content} {tr : List Observed} (hi : c.held[i]? = some ⟨s, .assembled p⟩)
    (hp : p.Fits)
    (h : Follows (c.queue.attend false (.enqueue p)) m tr (some (.error e, q)) m') :
    ∃ tr, Moment.Happens ⟨⟨m, some c⟩, .act (.enqueue i false), tr, some (some (.error e),
      some { c.setQueue q with held := c.held.set i ⟨s, .refused e⟩ }), m'⟩ := by
  have hasks : c.asks (.enqueue i false) = some (false, .enqueue p) := by
    simp only [Client.asks, hi]
  have hresume : (c.setQueue q).resume (.error e) (.enqueue i false) =
      .tell (.notQueued s.documentType e)
        (.done { c.setQueue q with held := c.held.set i ⟨s, .refused e⟩ }) := by
    simp only [Client.resume, Client.setQueue, hi]
  have hstep : Follows (c.perform (.enqueue i false)) m (tr ++ [.told (.notQueued s.documentType e)])
      (some (some (.error e), { c.setQueue q with held := c.held.set i ⟨s, .refused e⟩ })) m' := by
    rw [Client.perform, hasks]
    refine h.bind ?_
    simp only [hresume]
    exact .tell (.done _ _)
  refine ⟨_, hstep.bind (.done _ _), fun r hr p' hp' => ?_⟩
  rw [Moment.request_of_act rfl rfl, hasks] at hr
  cases hr
  cases hp'
  exact hp

/-- The opening of a handle, otherwise plain. -/
def Opening.handled : Opening := { Opening.plain with handle := true }

/-- A map with a client id and nothing else. -/
def Memory.ofId (id : Uuid) : Memory :=
  ⟨Dict.empty.insert ClientId.key (Bytes.ofText id.text), false⟩

section
variable (id : Uuid)

theorem get?_ofId (k : String) : (Memory.ofId id).records.get? k =
    if k = ClientId.key then some (Bytes.ofText id.text) else none := Dict.get?_insert _ _ _ _

theorem working_ofId : (Memory.ofId id).Working := by
  refine ⟨rfl, fun k hk => ?_⟩
  rcases Dict.mem_keys_insert hk with rfl | hk
  · decide
  · cases hk

theorem mirror_ofId : Queue.Mirror (Memory.ofId id).records.get? [] where
  distinct := .nil
  held p hp := absurd hp List.not_mem_nil
  only k hk hsome := by
    rw [get?_ofId] at hsome
    split at hsome
    · rename_i hkey
      rw [hkey, isPingKey_clientId] at hk
      cases hk
    · cases hsome

/-- The process that opens it. -/
def Client.ofId : Client :=
  .created Opening.handled.config Opening.handled.settings id
    (.restored Opening.handled.settings.queueConfig [] 0 0)

/-- A handle is opened once the store holds the client id and nothing else. -/
theorem happens_open_of_load {o : Opening} (ho : o.handle = true) {m : Content}
    {tr₀ : List Observed} {drew : Bool} (hload : Follows (ClientId.loadOrCreate o.fresh) m tr₀
      (some (.ok id, drew)) (Memory.ofId id).records.get?) :
    ∃ tr, Moment.Happens ⟨⟨m, none⟩, .opening o, tr, some (none, some (.created o.config o.settings id
      (.restored o.settings.queueConfig [] 0 0))), (Memory.ofId id).records.get?⟩ := by
  obtain ⟨tr, hqueue⟩ := Queue.follows_open_memory (c := o.settings.queueConfig)
    (working_ofId id) (mirror_ofId id) .nil (Queue.admits_nil _)
  have hopen : ∃ tr, Follows (Lifecycle.openOver o.config o.settings o.fresh) m tr
      (some (.ok (.create o.config o.settings id, .restored o.settings.queueConfig [] 0 0), drew))
      (Memory.ofId id).records.get? := ⟨_, hload.bind (hqueue.bind (.tell (.done _ _)))⟩
  obtain ⟨tr, hopen⟩ := hopen
  have hprogram : Follows o.program m (tr ++ [])
      (some (some (.created o.config o.settings id (.restored o.settings.queueConfig [] 0 0))))
      (Memory.ofId id).records.get? := by
    rw [Opening.program, ho, if_pos rfl]
    exact hopen.bind (.done _ _)
  exact ⟨_, hprogram.bind (.done _ _), fun r hr => by cases hr⟩

theorem happens_open_ofId : ∃ tr, Moment.Happens ⟨⟨(Memory.ofId id).records.get?, none⟩,
    .opening .handled, tr, some (none, some (.ofId id)), (Memory.ofId id).records.get?⟩ := by
  have hget := (get?_ofId id ClientId.key).trans (if_pos rfl)
  have hload : Follows (ClientId.loadOrCreate Opening.handled.fresh) (Memory.ofId id).records.get?
      [.called (.get ClientId.key) (.ok (some (Bytes.ofText id.text)))] (some (.ok id, false))
      (Memory.ofId id).records.get? := by
    refine .call (.answered (c := .get ClientId.key) _ hget.symm) ?_
    simp only [ClientId.ofBytes?_text]
    exact .done _ _
  exact happens_open_of_load id rfl hload

end

end PingDelivery
