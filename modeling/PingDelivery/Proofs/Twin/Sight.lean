import PingDelivery.Proofs.Client.Delivery
import PingDelivery.Proofs.Twin.Saga

/-! # What is seen of a history

What an application, an operator and the uploader get to see: how submissions and openings end, what the
queue replies, how runs end and what they have counted, and which requests are sent. Parallel histories
that have stayed alike show the same, up to what the bond allows.
-/

namespace PingDelivery
open Store Upload

/-! ## Submissions -/

namespace Lifecycle

/-- How a submission ends with its assembling, if it does. -/
def ending? : Except AssemblyError Ping → Option (Except LifecycleError (Option Uuid))
  | .ok _ => none
  | .error (.payloadTooLarge _ _ _) => some (.ok none)
  | .error e => some (.error (.assembly e))

end Lifecycle

namespace Client

/-- How a submission ends with this step, if one does: at once where nothing was buffered, with its
assembling, with the queue's consent, or when it is taken back. -/
def ended? (c : Client) (reply : Reply) : Action → Option (Except LifecycleError (Option Uuid))
  | .recordEvent now ping e =>
    match (c.lifecycle.recordEvent now ping e).2 with
    | none => some (.ok none)
    | some _ => none
  | .drain now ping reason =>
    match (c.lifecycle.drain now ping reason).2 with
    | none => some (.ok none)
    | some _ => none
  | .assemble i now fresh =>
    match c.held[i]? with
    | some ⟨s, .drained⟩ => Lifecycle.ending? (Assembly.assemble (c.lifecycle.request s)
        c.lifecycle.config s.snapshot c.lifecycle.maxPingSize fresh now).1
    | _ => none
  | .enqueue i _ =>
    match c.held[i]?, reply with
    | some ⟨_, .assembled p⟩, some (.ok _) => some (.ok (some p.id))
    | _, _ => none
  | .takeBack i _ =>
    match c.held[i]? with
    | some ⟨_, .refused e⟩ => some (.error (.queue e))
    | _ => none
  | _ => none

/-! ## Runs -/

/-- The ping that the step hands to the uploader. -/
def handed? (c c' : Client) : Action → Option Ping
  | .look i _ =>
    match c.runs[i]?, c'.runs[i]? with
    | some (.looking s), some (.uploading p s') => if s' = s then some p else none
    | _, _ => none
  | _ => none

section
variable {c c' : Client} {i : Nat} {s : Summary} {phase : Run.Phase}

theorem getElem?_of_set (hrun : c.runs[i]? = some (.looking s)) (hset : c'.runs = c.runs.set i phase) :
    c'.runs[i]? = some phase := by
  rw [hset, List.getElem?_set_self (List.getElem?_eq_some_iff.1 hrun).1]

theorem handed_of_idle (hrun : c.runs[i]? = some (.looking s)) (hset : c'.runs = c.runs.set i phase)
    (hphase : phase.Idle) (passed : Bool) : c.handed? c' (.look i passed) = none := by
  have hi := getElem?_of_set hrun hset
  rcases hphase with ⟨s', rfl⟩ | ⟨r, rfl⟩ <;> simp only [handed?, hrun, hi]

theorem handed_of_uploading {p : Ping} (hrun : c.runs[i]? = some (.looking s))
    (hset : c'.runs = c.runs.set i (.uploading p s)) (passed : Bool) :
    c.handed? c' (.look i passed) = some p := by
  simp only [handed?, hrun, getElem?_of_set hrun hset, if_true]

end

/-- What is handed over is what was taken up. -/
theorem handed_eq_peeked {c c' : Client} {a : Action} {m m' : Content} {tr : List Observed}
    {r : Reply} (h : Follows (c.perform a) m tr (some (r, c')) m') : c.handed? c' a = c.peeked? a := by
  cases a with
  | look i passed =>
    cases hrun : c.runs[i]? with
    | none => simp only [handed?, peeked?, hrun]
    | some phase =>
      cases phase with
      | looking s =>
        cases hcancelled : c.desk.scheduler.cancelled with
        | true =>
          have hasks : c.asks (.look i passed) = none := by
            simp only [asks, hrun, hcancelled, if_true]
          have hact : c.act (.look i passed) = .done (c.setRun i (Run.stopped s)) := by
            simp only [act, hrun, hcancelled, if_true]
          rw [perform_of_asks_none hasks, hact] at h
          obtain ⟨-, -, hout | hout⟩ := h.of_done
          · cases hout
          · cases hout
            rw [handed_of_idle hrun rfl (.inr ⟨_, rfl⟩)]
            simp only [peeked?, hrun, hcancelled, Bool.true_or, if_true]
        | false =>
          obtain ⟨reply, hreply, hperform⟩ := perform_look passed hrun hcancelled
          rw [hperform] at h
          obtain ⟨out, hfollow, hout⟩ := h.of_bind_done
          obtain ⟨c', rfl, hc'⟩ := Option.map_eq_some_iff.1 hout.symm
          cases hc'
          obtain ⟨out, hlooked, hout⟩ := hfollow.of_bind_done
          obtain ⟨x, rfl, rfl⟩ := Option.map_eq_some_iff.1 hout.symm
          have hidle (hreply : ∀ p rest, reply ≠ .ok (.pings (p :: rest))) : c.handed?
              { c with desk := x.2, runs := c.runs.set i x.1 } (.look i passed) = none := by
            obtain ⟨-, -, hx⟩ := (quiet_looked c.desk s reply).follows hlooked
            rcases (hx x rfl).2 with hphase | ⟨p, rest, heq, -⟩
            · exact handed_of_idle hrun rfl hphase passed
            · exact absurd heq (hreply p rest)
          rw [peeked?, hrun, hcancelled, Bool.false_or]
          subst hreply
          cases hfaulted : c.queue.faulted && !passed with
          | true =>
            simp only [hfaulted, if_true] at hidle ⊢
            exact hidle fun _ _ h => by cases h
          | false =>
            simp only [hfaulted, Bool.false_eq_true, if_false] at hidle hlooked ⊢
            cases hpings : c.queue.pings with
            | nil =>
              simp only [hpings, List.take_nil] at hidle
              exact hidle fun _ _ h => by cases h
            | cons p rest =>
              rw [hpings] at hlooked
              obtain ⟨rfl, -⟩ := (quiet_looked_cons c.desk s p []).eq_of_follows hlooked
              exact handed_of_uploading hrun rfl passed
      | _ => simp only [handed?, peeked?, hrun]
  | _ => rfl

/-- What can be asked of a process beside its pending pings. -/
structure Status where
  buffer : Buffer
  /-- How the runs have ended. -/
  results : List (Option (Except RunError Summary))
  stats : Stats
  droppedOversized : Nat
  report : Queue.Report
  nextSequence : UInt64
  faulted : Bool
  suspended : Bool
  cancelled : Bool

end Client

def Upload.Run.Phase.result? : Run.Phase → Option (Except RunError Summary)
  | finished r => some r
  | _ => none

def Client.status (c : Client) : Client.Status where
  buffer := c.lifecycle.buffer
  results := c.runs.map Run.Phase.result?
  stats := c.desk.scheduler.stats
  droppedOversized := c.lifecycle.droppedOversized
  report := c.queue.report
  nextSequence := c.queue.nextSequence
  faulted := c.queue.faulted
  suspended := c.desk.scheduler.suspended
  cancelled := c.desk.scheduler.cancelled

/-! ## Moments -/

namespace Moment

def ended? (t : Moment) : Option (Except LifecycleError (Option Uuid)) :=
  match t.before.client, t.deed, t.result with
  | some c, .act a, some (reply, _) => c.ended? reply a
  | _, _, _ => none

def handed? (t : Moment) : Option Ping :=
  match t.before.client, t.deed, t.after.client with
  | some c, .act a, some c' => c.handed? c' a
  | _, _, _ => none

/-- The request in which it is sent. -/
def sent? (t : Moment) (g : Gzip) (now : Time.Instant) : Option Wire :=
  match t.before.client, t.handed? with
  | some c, some p =>
    some (Wire.ofPing g c.desk.scheduler.config c.desk.scheduler.plan.compress now p)
  | _, _ => none

theorem handed_eq_some {t : Moment} {p : Ping} : t.handed? = some p ↔ t.Hands p := by
  constructor
  · intro h
    unfold handed? at h
    split at h
    · rename_i c a c' hc hd hc'
      unfold Client.handed? at h
      split at h
      · split at h
        · rename_i i passed _ _ s _ s' hlooking huploading
          split at h
          · rename_i hs
            cases h
            exact ⟨c, c', i, passed, s, hc, hd, hlooking, hc', hs ▸ huploading⟩
          · cases h
        · cases h
      · cases h
    · cases h
  · rintro ⟨c, c', i, passed, s, hc, hd, hlooking, hc', huploading⟩
    simp only [handed?, hc, hd, hc', Client.handed?, hlooking, huploading, if_true]

theorem Happens.handed_eq {t : Moment} (ht : t.Happens) (halive : t.result.isSome) :
    t.handed? = t.peeked? := by
  cases hc : t.before.client with
  | none => simp only [handed?, peeked?, hc]
  | some c =>
    cases hd : t.deed with
    | opening _ | ending => simp only [handed?, peeked?, hc, hd]
    | act a =>
      have hf := ht.follows
      rw [hc, hd] at hf
      obtain ⟨out, hperform, hresult⟩ := hf.of_bind_done
      cases out with
      | none =>
        rw [hresult] at halive
        cases halive
      | some x =>
        have hc' : t.after.client = some x.2 := by
          rw [after, hresult]
          rfl
        simp only [handed?, peeked?, hc, hd, hc']
        exact Client.handed_eq_peeked hperform

/-- What the opening of a store comes to: of a handle, or of the queue alone. -/
inductive Opens (t : Moment) : Ended LifecycleError Unit → Prop where
  | handle {o : Opening} {x : Ended LifecycleError (Lifecycle × Queue)} {drew : Bool}
      (client : t.before.client = none) (deed : t.deed = .opening o) (ho : o.handle = true)
      (alive : t.result.isSome) (follows : Follows (Lifecycle.openOver o.config o.settings o.fresh)
        t.before.content t.trace (some (x, drew)) t.content) : t.Opens (x.map fun _ => ())
  | queue {o : Opening} {x : Ended QueueError Queue}
      (client : t.before.client = none) (deed : t.deed = .opening o) (ho : o.handle = false)
      (alive : t.result.isSome) (follows : Follows (Queue.rehydrate o.settings.queueConfig)
        t.before.content t.trace (some x) t.content) :
      t.Opens ((x.map fun _ => ()).mapError .queue)

/-- A store is opened at the moment, and the process lives on. -/
def IsOpening (t : Moment) : Prop :=
  t.before.client = none ∧ (∃ o, t.deed = .opening o) ∧ t.result.isSome

theorem Opens.isOpening {t : Moment} {r : Ended LifecycleError Unit} (h : t.Opens r) :
    t.IsOpening := by
  cases h with
  | handle hc hd _ halive _ => exact ⟨hc, ⟨_, hd⟩, halive⟩
  | queue hc hd _ halive _ => exact ⟨hc, ⟨_, hd⟩, halive⟩

/-- Every opening comes to something, unless the process dies under it. -/
theorem Happens.opens {t : Moment} (ht : t.Happens) (h : t.IsOpening) : ∃ r, t.Opens r := by
  obtain ⟨hc, ⟨o, hd⟩, halive⟩ := h
  have hf := ht.follows
  rw [hc, hd] at hf
  obtain ⟨out, hopening, hresult⟩ := hf.of_bind_done
  obtain ⟨c, rfl⟩ : ∃ c, out = some c := by
    cases out with
    | none =>
      rw [hresult] at halive
      cases halive
    | some c => exact ⟨c, rfl⟩
  unfold Opening.program at hopening
  split at hopening
  · rename_i ho
    obtain ⟨x, hx, hc'⟩ := hopening.of_bind_ends o.withHandle (by rintro ⟨_ | _ | _, _⟩ <;> rfl)
    obtain ⟨⟨x, drew⟩, rfl, -⟩ := Option.map_eq_some_iff.1 hc'.symm
    exact ⟨_, .handle hc hd ho halive hx⟩
  · rename_i ho
    obtain ⟨x, hx, hc'⟩ := hopening.of_bind_ends o.withQueue (by rintro (_ | _ | _) <;> rfl)
    obtain ⟨x, rfl, -⟩ := Option.map_eq_some_iff.1 hc'.symm
    exact ⟨_, .queue hc hd (Bool.eq_false_iff.2 ho) halive hx⟩

end Moment

/-- What is said and how loudly. -/
def Store.Observed.line? : Observed → Option (Log.Level × String × List (String × Json))
  | .told n => some (n.level, n.text, n.fields)
  | .called _ _ => none

/-- What is said beside payload traces. -/
def said (tr : List Observed) : List (Log.Level × String × List (String × Json)) :=
  (unlogged tr).filterMap Observed.line?

/-! ## Side by side -/

theorem Notice.text_uploading (p : Ping) : (uploading p).text =
    "Uploading ping " ++ p.id.text ++ " (" ++ p.documentType ++ ") to " ++ p.url ++ " (attempt " ++
      toString (attemptNumber p) ++ ")" := rfl

theorem Ping.Agrees.text_uploading {p p' : Ping} (h : p.Agrees p') (hurl : p'.url = p.url) :
    (Notice.uploading p').text = (Notice.uploading p).text := by
  rw [Notice.text_uploading, Notice.text_uploading, Notice.attemptNumber, Notice.attemptNumber, h.id,
    h.documentType, h.attempts, hurl]

namespace Bond
variable {B : Bond}

theorem Clients.status_eq {c c' : Client} (h : B.Clients c c') : c'.status = c.status := by
  have hresults : c'.runs.map Run.Phase.result? = c.runs.map Run.Phase.result? := by
    have hruns := h.runs
    generalize c.runs = l, c'.runs = l' at hruns
    induction hruns with
    | nil => rfl
    | cons hp _ ih =>
      rw [List.map_cons, List.map_cons, ih]
      cases hp <;> rfl
  unfold Client.status Client.queue
  rw [hresults, h.lifecycle.buffer, h.lifecycle.droppedOversized, h.desk.scheduler.stats,
    h.desk.scheduler.suspended, h.desk.scheduler.cancelled, h.desk.queue.report,
    h.desk.queue.nextSequence, h.desk.queue.faulted]

/-- A step ends submissions alike. -/
theorem ended_eq {c c' : Client} (h : B.Clients c c') {r r' : Client.Reply}
    (hr : Option.Rel B.Responses r r') {a : Client.Action} (hmakes : B.Assembles c c' a) :
    c'.ended? r' a = c.ended? r a := by
  have hbuffer := h.lifecycle.buffer
  cases a with
  | recordEvent now ping e =>
    simp only [Client.ended?, Lifecycle.recordEvent, hbuffer,
      B.configs_maxEvents h.lifecycle.config]
  | drain now ping reason => simp only [Client.ended?, Lifecycle.drain, hbuffer]
  | assemble i now fresh =>
    have hheld := rel_getElem? h.held i
    have hmake := hmakes i now fresh
    simp only [Client.ended?]
    generalize c.held[i]? = x, c'.held[i]? = x' at hheld hmake
    cases hheld with
    | none => rfl
    | @some x x' hx =>
      obtain ⟨s, stage⟩ := x
      obtain ⟨s', stage'⟩ := x'
      cases hx.submission
      cases hx.stage with
      | assembled _ | refused _ => rfl
      | drained =>
        have hverdicts := verdicts_assemble h.lifecycle (hmake s rfl rfl)
        simp only
        generalize Assembly.assemble (c.lifecycle.request s) c.lifecycle.config s.snapshot
            c.lifecycle.maxPingSize fresh now = y, Assembly.assemble (c'.lifecycle.request s)
            c'.lifecycle.config s.snapshot c'.lifecycle.maxPingSize fresh now = y' at hverdicts
        cases hverdicts <;> rfl
  | enqueue i passed =>
    have hheld := rel_getElem? h.held i
    simp only [Client.ended?]
    generalize c.held[i]? = x, c'.held[i]? = x' at hheld
    cases hheld with
    | none => rfl
    | @some x x' hx =>
      obtain ⟨s, stage⟩ := x
      obtain ⟨s', stage'⟩ := x'
      cases hx.stage with
      | drained | refused _ => rfl
      | assembled hp =>
        cases hr with
        | none => rfl
        | some hr =>
          cases hr with
          | error e => rfl
          | ok _ => simp only [(B.agree hp).id]
  | takeBack i now =>
    have hheld := rel_getElem? h.held i
    simp only [Client.ended?]
    generalize c.held[i]? = x, c'.held[i]? = x' at hheld
    cases hheld with
    | none => rfl
    | @some x x' hx =>
      obtain ⟨s, stage⟩ := x
      obtain ⟨s', stage'⟩ := x'
      cases hx.stage <;> rfl
  | _ => rfl

theorem rel_handed {c c' d d' : Client} (h : B.Clients c c') (h' : B.Clients d d')
    (a : Client.Action) : Option.Rel B.pings (c.handed? d a) (c'.handed? d' a) := by
  cases a with
  | look i passed =>
    have hrun := rel_getElem? h.runs i
    have hrun' := rel_getElem? h'.runs i
    simp only [Client.handed?]
    generalize c.runs[i]? = x, c'.runs[i]? = x' at hrun
    generalize d.runs[i]? = y, d'.runs[i]? = y' at hrun'
    cases hrun with
    | none => exact .none
    | some hx =>
      cases hx with
      | looking s =>
        cases hrun' with
        | none => exact .none
        | some hy =>
          cases hy with
          | uploading hp s' =>
            simp only
            split
            · exact .some hp
            · exact .none
          | _ => exact .none
      | _ => exact .none
  | _ => exact .none

/-- Bonded pings are spoken of alike, if they go to the same place. -/
theorem said_eq (hurl : ∀ p p', B.pings p p' → p'.url = p.url) {tr tr' : List Observed}
    (h : List.Forall₂ B.Sights (unlogged tr) (unlogged tr')) : said tr' = said tr := by
  unfold said
  generalize unlogged tr = l, unlogged tr' = l' at h
  induction h with
  | nil => rfl
  | cons hs _ ih =>
    cases hs with
    | told hn =>
      cases hn with
      | same n => rw [List.filterMap_cons, List.filterMap_cons, ih]
      | @uploading p p' hp =>
        have hline : (Observed.told (.uploading p')).line? = (Observed.told (.uploading p)).line? :=
          congrArg (fun s => some (Log.Level.debug, s, []))
            ((B.agree hp).text_uploading (hurl p p' hp))
        rw [List.filterMap_cons, List.filterMap_cons, ih, hline]
    | put | read | same => exact ih

namespace Moments
variable {t t' : Moment}

theorem rel_reply (h : B.Moments t t') : Option.Rel B.Responses t.reply t'.reply := by
  have hresult := h.result
  unfold Moment.reply
  generalize t.result = x, t'.result = x' at hresult
  cases hresult with
  | none => exact .none
  | some hx => exact hx.reply

theorem ended_eq (h : B.Moments t t') (hp : B.Parallel t t') (hmakes : B.AssemblesAt t) :
    t'.ended? = t.ended? := by
  have hresult := h.result
  have hclient := h.before.client
  have hdeed := hp.deed
  have hassembles := hmakes
  unfold AssemblesAt at hassembles
  unfold Moment.ended?
  generalize t.result = x, t'.result = x' at hresult
  generalize t.before.client = c, t'.before.client = c' at hclient hassembles
  generalize t.deed = d, t'.deed = d' at hdeed hassembles
  cases hclient with
  | none => rfl
  | some hc =>
    cases hdeed with
    | act a =>
      cases hresult with
      | none => rfl
      | some hx => exact Bond.ended_eq hc hx.reply (hassembles _ _ a rfl rfl hc)
    | opening _ | ending => rfl

theorem rel_handed (h : B.Moments t t') (hp : B.Parallel t t') :
    Option.Rel B.pings t.handed? t'.handed? := by
  have hclient := h.before.client
  have hafter := h.after.client
  have hdeed := hp.deed
  unfold Moment.handed?
  generalize t.after.client = x, t'.after.client = x' at hafter
  generalize t.before.client = c, t'.before.client = c' at hclient
  generalize t.deed = d, t'.deed = d' at hdeed
  cases hclient with
  | none => exact .none
  | some hc =>
    cases hdeed with
    | act a =>
      cases hafter with
      | none => exact .none
      | some hx => exact Bond.rel_handed hc hx a
    | opening _ | ending => exact .none

/-- Requests that are sent of bonded pings by bonded schedulers. -/
theorem rel_sent (h : B.Moments t t') (hp : B.Parallel t t') (g : Gzip) (now : Time.Instant) :
    Option.Rel (fun w w' => ∃ c c' compress p p', B.configs c c' ∧ B.pings p p' ∧
      w = Wire.ofPing g c compress now p ∧ w' = Wire.ofPing g c' compress now p')
      (t.sent? g now) (t'.sent? g now) := by
  have hhanded := h.rel_handed hp
  have hclient := h.before.client
  unfold Moment.sent?
  generalize t.handed? = x, t'.handed? = x' at hhanded
  generalize t.before.client = c, t'.before.client = c' at hclient
  cases hclient with
  | none => exact .none
  | some hc =>
    cases hhanded with
    | none => exact .none
    | some hx =>
      refine .some ⟨_, _, _, _, _, hc.desk.scheduler.config, hx, rfl, ?_⟩
      rw [hc.desk.scheduler.plan]

theorem opens_eq (h : B.Moments t t') (hp : B.Parallel t t') {r r' : Ended LifecycleError Unit}
    (hr : t.Opens r) (hr' : t'.Opens r') : r = r' := by
  have hends := hp.ends
  have hfates := hp.fates
  have hdeed := hp.deed
  cases hr with
  | handle _ hd ho halive hf =>
    rw [halive] at hends hfates
    rw [hd] at hdeed
    cases hr' with
    | handle _ hd' _ _ hf' =>
      rw [hd'] at hdeed
      cases hdeed with
      | opening hdoors =>
        rw [hdoors.settings, hdoors.fresh] at hf'
        obtain ⟨-, -, hresults, -⟩ :=
          (programs_openOver hdoors.config _ _).follows h.before.content hf hf' hfates rfl
        cases hresults with
        | some hx => cases hx <;> rfl
    | queue _ hd' ho' _ _ =>
      rw [hd'] at hdeed
      cases hdeed with
      | opening hdoors =>
        rw [hdoors.handle, ho] at ho'
        cases ho'
  | queue _ hd ho halive hf =>
    rw [halive] at hends hfates
    rw [hd] at hdeed
    cases hr' with
    | handle _ hd' ho' _ _ =>
      rw [hd'] at hdeed
      cases hdeed with
      | opening hdoors =>
        rw [hdoors.handle, ho] at ho'
        cases ho'
    | queue _ hd' _ _ hf' =>
      rw [hd'] at hdeed
      cases hdeed with
      | opening hdoors =>
        rw [hdoors.settings] at hf'
        obtain ⟨-, -, hresults, -⟩ :=
          (programs_rehydrate _).follows h.before.content hf hf' hfates rfl
        cases hresults with
        | some hx => cases hx <;> rfl

/-- The one moment is an opening if the other is. -/
theorem isOpening_iff (h : B.Moments t t') (hp : B.Parallel t t') : t.IsOpening ↔ t'.IsOpening := by
  have hclient := h.before.client
  have hdeed := hp.deed
  unfold Moment.IsOpening
  rw [hp.ends]
  generalize t.before.client = c, t'.before.client = c' at hclient
  generalize t.deed = d, t'.deed = d' at hdeed
  cases hclient with
  | some _ =>
    refine iff_of_false (fun h => ?_) (fun h => ?_) <;> cases h.1
  | none =>
    cases hdeed with
    | opening _ => exact ⟨fun h => ⟨rfl, ⟨_, rfl⟩, h.2.2⟩, fun h => ⟨rfl, ⟨_, rfl⟩, h.2.2⟩⟩
    | act _ | ending =>
      refine iff_of_false (fun h => ?_) (fun h => ?_) <;> cases h.2.1.choose_spec

/-- A store is opened alike. -/
theorem opens_iff (h : B.Moments t t') (hp : B.Parallel t t') (ht : t.Happens) (ht' : t'.Happens)
    (r : Ended LifecycleError Unit) : t.Opens r ↔ t'.Opens r := by
  constructor
  · intro hr
    obtain ⟨r', hr'⟩ := ht'.opens ((h.isOpening_iff hp).1 hr.isOpening)
    exact h.opens_eq hp hr hr' ▸ hr'
  · intro hr'
    obtain ⟨r, hr⟩ := ht.opens ((h.isOpening_iff hp).2 hr'.isOpening)
    exact h.opens_eq hp hr hr' ▸ hr

end Moments

end Bond
end PingDelivery
