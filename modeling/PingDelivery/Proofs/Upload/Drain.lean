import PingDelivery.Proofs.Client.Attempts
import PingDelivery.Proofs.Queue.Mirror
import PingDelivery.Proofs.Queue.Reopening
import PingDelivery.Proofs.Upload.Serial

/-! # A run by itself

One run over a healthy store, with nobody in between, and an uploader that answers each call as it
likes, in time or not. What becomes of the run, the queue and the counts can be told beforehand from
the pending pings and the answers they will get, ping by ping up to the first recoverable failure.
-/

namespace PingDelivery.Upload
open Store

/-! ## What is to be expected -/

/-- What the uploader says of a ping, and after how many milliseconds, if ever. -/
structure Answer where
  outcome : Outcome
  delay : Option Nat

namespace Answer
variable (plan : Plan) (a : Answer)

/-- An answer that comes just as the time is up still counts. -/
def inTime : Bool := a.delay.any (· ≤ plan.timeout.ceilMillis)

def verdict : Outcome := if a.inTime plan then a.outcome else Run.timedOut plan

def late : Nat := if a.inTime plan then 0 else 1

end Answer

/-- The answer to each call, by the number of the call. -/
abbrev Uploader := Nat → Ping → Answer

def Outcome.isRecoverable : Outcome → Bool
  | recoverable _ => true
  | success | unrecoverable _ => false

/-- What becomes of a ping that is handed over. -/
inductive Fate where
  | uploaded
  | refused
  | retained
  | dropped
  deriving DecidableEq

/-- What is left of the ping in the queue. Below the ceiling its count does not run full. -/
def Fate.left (p : Ping) (f : Fate) : List Ping :=
  if f = .retained then [{ p with attempts := p.attempts + 1 }] else []

def fate (maxAttempts : UInt32) (p : Ping) : Outcome → Fate
  | .success => .uploaded
  | .unrecoverable _ => .refused
  | .recoverable _ =>
    if p.attempts.toNat + 1 < maxAttempts.toNat then .retained else .dropped

/-- A ping and the answer that it will get when it is handed over. -/
structure Trial where
  ping : Ping
  answer : Answer

namespace Trial

def fails (plan : Plan) (t : Trial) : Bool := (t.answer.verdict plan).isRecoverable

def fate (plan : Plan) (maxAttempts : UInt32) (t : Trial) : Fate :=
  Upload.fate maxAttempts t.ping (t.answer.verdict plan)

end Trial

namespace Trials

/-- The pings with the answers to the calls that will be made with them. -/
def of (u : Uploader) (l : List Ping) : List Trial := l.mapIdx fun k p => ⟨p, u k p⟩

section
variable (plan : Plan) (maxAttempts : UInt32) (ts : List Trial)

/-- How many pings are handed over: up to the first that fails recoverably, or all. -/
def reach : Nat := min (ts.findIdx (·.fails plan) + 1) ts.length

def made : List Trial := ts.take (reach plan ts)

def fates : List Fate := (made plan ts).map (·.fate plan maxAttempts)

/-- How many answers did not come in time. -/
def late : Nat := (made plan ts).countP fun t => !t.answer.inTime plan

/-- The last ping that was handed over, with its count one higher, if it is to be tried again. -/
def kept : List Ping :=
  if Fate.retained ∈ fates plan maxAttempts ts then
    ((made plan ts).getLast?.map fun t => { t.ping with attempts := t.ping.attempts + 1 }).toList
  else []

def stop : StopReason :=
  if (made plan ts).any (·.fails plan) then .recoverableFailure else .queueEmpty

end
end Trials

def Summary.plus (s : Summary) (fs : List Fate) : Summary :=
  { s with
    uploaded := s.uploaded + fs.count .uploaded
    unrecoverable := s.unrecoverable + fs.count .refused
    recoverable := s.recoverable + fs.count .retained
    droppedAfterRetries := s.droppedAfterRetries + fs.count .dropped }

/-- A ping that is dropped has failed recoverably, too. -/
def Stats.plus (s : Stats) (fs : List Fate) (late : Nat) : Stats where
  uploaded := s.uploaded + fs.count .uploaded
  recoverableFailures := s.recoverableFailures + (fs.count .retained + fs.count .dropped)
  unrecoverableFailures := s.unrecoverableFailures + fs.count .refused
  droppedAfterRetries := s.droppedAfterRetries + fs.count .dropped
  timeouts := s.timeouts + late

def Scheduler.plus (s : Scheduler) (fs : List Fate) (late : Nat) : Scheduler :=
  { s with stats := s.stats.plus fs late }

/-- What a run that is by itself comes to. -/
structure Drain where
  handed : List Ping
  summary : Summary
  desk : Desk

/-- The reference: what becomes of the pings, from the answers they will get. -/
def drain (u : Uploader) (d : Desk) : Drain :=
  let plan := d.scheduler.plan
  let ts := Trials.of u d.queue.pings
  let fs := Trials.fates plan d.queue.config.maxAttempts ts
  { handed := d.queue.pings.take (Trials.reach plan ts)
    summary :=
      { uploaded := fs.count .uploaded
        unrecoverable := fs.count .refused
        recoverable := fs.count .retained
        droppedAfterRetries := fs.count .dropped
        stopReason := Trials.stop plan ts }
    desk :=
      { scheduler := d.scheduler.plus fs (Trials.late plan ts)
        queue := { d.queue with
          pings := Trials.kept plan d.queue.config.maxAttempts ts ++
            d.queue.pings.drop (Trials.reach plan ts) } } }

theorem Summary.plus_plus (s : Summary) (fs fs' : List Fate) :
    (s.plus fs).plus fs' = s.plus (fs ++ fs') := by
  simp [plus, List.count_append, Nat.add_assoc]

theorem Scheduler.plus_plus (s : Scheduler) (fs fs' : List Fate) (n n' : Nat) :
    (s.plus fs n).plus fs' n' = s.plus (fs ++ fs') (n + n') := by
  have hstats : (s.stats.plus fs n).plus fs' n' = s.stats.plus (fs ++ fs') (n + n') := by
    simp only [Stats.plus, List.count_append, Stats.mk.injEq]
    omega
  exact congrArg (fun stats => { s with stats }) hstats

/-! ## Trial by trial -/

namespace Trials

section
variable {plan : Plan} {maxAttempts : UInt32} {t : Trial} {ts : List Trial}

theorem reach_cons : reach plan (t :: ts) = if t.fails plan then 1 else reach plan ts + 1 := by
  rw [reach, reach, List.findIdx_cons, List.length_cons]
  cases t.fails plan with
  | true => simp
  | false => simp

theorem made_cons : made plan (t :: ts) = t :: if t.fails plan then [] else made plan ts := by
  rw [made, reach_cons]
  split <;> rfl

theorem fates_cons : fates plan maxAttempts (t :: ts) =
    t.fate plan maxAttempts :: if t.fails plan then [] else fates plan maxAttempts ts := by
  rw [fates, made_cons, List.map_cons]
  split <;> rfl

theorem late_cons : late plan (t :: ts) =
    t.answer.late plan + if t.fails plan then 0 else late plan ts := by
  rw [late, made_cons, List.countP_cons, Nat.add_comm, Answer.late]
  cases t.answer.inTime plan <;> cases t.fails plan <;> rfl

theorem stop_cons : stop plan (t :: ts) =
    if t.fails plan then .recoverableFailure else stop plan ts := by
  rw [stop, made_cons, List.any_cons]
  cases h : t.fails plan with
  | true => rfl
  | false => rfl

theorem drop_reach_cons : (t :: ts).drop (reach plan (t :: ts)) =
    if t.fails plan then ts else ts.drop (reach plan ts) := by
  rw [reach_cons]
  split <;> rfl

theorem fate_eq_retained (h : t.fate plan maxAttempts = .retained) : t.fails plan = true := by
  unfold Trial.fate fate at h
  unfold Trial.fails
  split at h <;> simp_all [Outcome.isRecoverable]

theorem kept_of_fails (h : t.fails plan = true) :
    kept plan maxAttempts (t :: ts) = (t.fate plan maxAttempts).left t.ping := by
  simp [kept, fates_cons, made_cons, h, Fate.left, eq_comm]

theorem kept_of_not_fails (h : t.fails plan = false) :
    kept plan maxAttempts (t :: ts) = kept plan maxAttempts ts := by
  have hfate : Fate.retained ≠ t.fate plan maxAttempts := by
    intro hretained
    rw [fate_eq_retained hretained.symm] at h
    cases h
  have hmem : Fate.retained ∈ fates plan maxAttempts (t :: ts) ↔
      Fate.retained ∈ fates plan maxAttempts ts := by
    simp [fates_cons, h, hfate]
  rw [kept, kept, if_congr hmem rfl rfl]
  split
  · rename_i hretained
    -- a ping is kept, so the last one handed over is not the one in front
    have hne : made plan ts ≠ [] := by
      intro hnil
      simp [fates, hnil] at hretained
    obtain ⟨x, xs, hmade⟩ := List.exists_cons_of_ne_nil hne
    simp [made_cons, h, hmade, List.getLast?_cons_cons]
  · rfl

end

theorem of_cons (u : Uploader) (p : Ping) (l : List Ping) :
    of u (p :: l) = ⟨p, u 0 p⟩ :: of (fun k => u (k + 1)) l := List.mapIdx_cons

theorem map_ping_of (u : Uploader) (l : List Ping) : (of u l).map (·.ping) = l := by
  induction l generalizing u with
  | nil => rfl
  | cons p l ih => rw [of_cons, List.map_cons, ih]

end Trials

/-! ## Driving a run -/

/-- The next step of a run, if the uploader answers so. -/
def Run.Phase.next? (plan : Plan) (answer : Ping → Answer) : Run.Phase → Option Run.Act
  | .admitted => some .enter
  | .looking _ => some (.look false false)
  | .uploading p _ => some (if (answer p).inTime plan then .hear (answer p).outcome else .expire)
  | .settling _ _ _ => some (.settle false)
  | .arriving | .waiting | .finished _ => none

/-- A crew, its store and what has been seen of it. -/
structure Scene (σ : Type) where
  crew : Crew
  store : σ
  seen : List Crew.Event

namespace Scene
variable {σ : Type}

def next? (u : Uploader) (x : Scene σ) : Option Crew.Move :=
  match x.crew.runs with
  | [.arriving] => some (.ask 0)
  | [phase] =>
    (phase.next? x.crew.desk.scheduler.plan (u (Crew.landings x.seen))).map (.act 0)
  | _ => none

def move (b : Backend σ) (x : Scene σ) (mv : Crew.Move) : Scene σ :=
  let r := (x.crew.perform mv).run b x.store
  ⟨r.1.2, r.2.1, x.seen ++ r.1.1⟩

/-- The only run of the crew goes on, for so many moves or to its end. -/
def drive (b : Backend σ) (u : Uploader) : Nat → Scene σ → Scene σ
  | 0, x => x
  | n + 1, x =>
    match x.next? u with
    | none => x
    | some mv => drive b u n (x.move b mv)

def Leads (b : Backend σ) (u : Uploader) (x y : Scene σ) : Prop := ∃ n, drive b u n x = y

section
variable {b : Backend σ} {u : Uploader} {x y z : Scene σ} {mv : Crew.Move}

theorem drive_halted (h : x.next? u = none) (n : Nat) : drive b u n x = x := by
  cases n with
  | zero => rfl
  | succ n => rw [drive, h]

theorem drive_add (n k : Nat) : drive b u (n + k) x = drive b u k (drive b u n x) := by
  induction n generalizing x with
  | zero => rw [Nat.zero_add, drive]
  | succ n ih =>
    rw [Nat.add_right_comm, drive, drive]
    cases hx : x.next? u with
    | none => exact (drive_halted hx k).symm
    | some mv => exact ih

theorem Leads.trans (h : Leads b u x y) (h' : Leads b u y z) : Leads b u x z := by
  obtain ⟨n, rfl⟩ := h
  obtain ⟨k, rfl⟩ := h'
  exact ⟨n + k, drive_add n k⟩

/-- One move. -/
theorem leads_of_gives {es : List Crew.Event} {c : Crew} {st : σ} (hx : x.next? u = some mv)
    (h : (x.crew.perform mv).Gives b x.store (es, c) st) : Leads b u x ⟨c, st, x.seen ++ es⟩ := by
  refine ⟨1, ?_⟩
  rw [drive, hx]
  change Scene.mk _ _ _ = _
  rw [h.value, h.state]

variable {d d' : Desk} {phase phase' : Run.Phase} {a : Run.Act} {deeds : List Run.Deed}
  {st st' : σ}

theorem leads_of_put (u : Uploader) (seen : List Crew.Event) (hb : phase.busy = true)
    (hnext : phase.next? d.scheduler.plan (u (Crew.landings seen)) = some a)
    (h : (Run.act d phase a).Gives b st (deeds, phase', d') st') {es : List Crew.Event} {c : Crew}
    (hput : Crew.put ⟨d, [phase]⟩ 0 (deeds, phase', d') = (es, c)) :
    Leads b u ⟨⟨d, [phase]⟩, st, seen⟩ ⟨c, st', seen ++ es⟩ := by
  have hmv : (Scene.mk ⟨d, [phase]⟩ st seen).next? u = some (.act 0 a) := by
    cases phase <;> first | exact congrArg (Option.map _) hnext | cases hb
  refine leads_of_gives hmv ?_
  rw [← hput]
  simp only [Crew.perform, List.getElem?_cons_zero, hb, if_true]
  exact h.bind (.done _ _)

/-- A step of the run, with which it does not end. -/
theorem leads_of_act (u : Uploader) (seen : List Crew.Event) (hb : phase.busy = true)
    (hnext : phase.next? d.scheduler.plan (u (Crew.landings seen)) = some a)
    (h : (Run.act d phase a).Gives b st (deeds, phase', d') st') (hgo : phase'.busy = true) :
    Leads b u ⟨⟨d, [phase]⟩, st, seen⟩ ⟨⟨d', [phase']⟩, st', seen ++ deeds.map (.run 0)⟩ := by
  refine leads_of_put u seen hb hnext h ?_
  cases phase' <;> first | rfl | cases hgo

/-- A step with which the run ends. -/
theorem leads_of_end {r : Except RunError Summary} (u : Uploader) (seen : List Crew.Event)
    (hb : phase.busy = true)
    (hnext : phase.next? d.scheduler.plan (u (Crew.landings seen)) = some a)
    (h : (Run.act d phase a).Gives b st (deeds, .finished r, d') st')
    (hline : d'.scheduler.turn.line = []) : Leads b u ⟨⟨d, [phase]⟩, st, seen⟩
      ⟨⟨d'.withTurn .free, [.finished r]⟩, st',
        seen ++ (deeds.map (.run 0) ++ [.run 0 (.returned r)])⟩ := by
  refine leads_of_put u seen hb hnext h ?_
  have hpass := Crew.passOn_of_nil (c := ⟨d', [.finished r]⟩) hline
  simp only [Crew.put, List.set_cons_zero, hpass]

end
end Scene

/-! ## The steps of one trial -/

/-- What the queue replies when the answer is acknowledged. -/
def Fate.reply (p : Ping) : Fate → Queue.Reply
  | .uploaded | .refused => .accepted
  | .retained => .retry (.retained p.attempted.attempts)
  | .dropped => .retry (.dropped p.attempted.attempts)

/-- The store has gone along with the pending pings, and of its records no others have changed than
those of the pings `touched`. -/
structure Along (m : Content) (l : List Ping) (m' : Content) (l' touched : List Ping) : Prop where
  mirrored : Queue.Mirror m l → Queue.Mirror m' l'
  untouched : ∀ k, (∀ p ∈ touched, k ≠ Record.key p.id) → m' k = m k

namespace Along
variable {m m' m'' : Content} {l l' l'' touched touched' : List Ping}

theorem refl (m : Content) (l : List Ping) : Along m l m l [] := ⟨id, fun _ _ => rfl⟩

theorem trans (h : Along m l m' l' touched) (h' : Along m' l' m'' l'' touched') :
    Along m l m'' l'' (touched ++ touched') where
  mirrored := h'.mirrored ∘ h.mirrored
  untouched k hk := by
    rw [h'.untouched k fun p hp => hk p (List.mem_append_right _ hp),
      h.untouched k fun p hp => hk p (List.mem_append_left _ hp)]

end Along

section
variable {σ : Type} {b : Backend σ} {view : σ → Content} {well : σ → Prop} {d : Desk} {p : Ping}
  {rest : List Ping} {s : Summary} {st : σ}

theorem ceiling_iff (p : Ping) (K : UInt32) :
    K ≤ p.attempted.attempts ↔ ¬ p.attempts.toNat + 1 < K.toNat := by
  by_cases hlt : p.attempts < K
  · rw [UInt32.le_iff_toNat_le, Ping.attempts_attempted hlt]
    exact Nat.not_lt.symm
  · have hle := UInt32.le_iff_toNat_le.1 (UInt32.not_lt.1 hlt)
    have hmono : p.attempts.toNat ≤ p.attempted.attempts.toNat := by
      simp only [Ping.attempted]
      split
      · rename_i hroom
        rw [UInt32.toNat_add, UInt32.toNat_one, Nat.mod_eq_of_lt hroom]
        exact Nat.le_succ _
      · exact Nat.le_refl _
    exact iff_of_true (UInt32.le_iff_toNat_le.2 (Nat.le_trans hle hmono)) (by omega)

theorem attempted_of_room {p : Ping} {K : UInt32} (h : p.attempts.toNat + 1 < K.toNat) :
    p.attempted = { p with attempts := p.attempts + 1 } := by
  have hword := K.toNat_lt
  rw [Ping.attempted, if_pos (by omega)]

/-- The change that acknowledges the oldest ping. -/
theorem decide_ack {q : Queue} (hp : q.pings = p :: rest) (o : Outcome) : ∃ c notice,
    q.decide (Run.ack p o) = .write c
      { q with pings := (fate q.config.maxAttempts p o).left p ++ rest }
      ((fate q.config.maxAttempts p o).reply p) notice ∧
    c.key? = some (Record.key p.id) ∧
    ∀ m k, k ≠ Record.key p.id → c.effect m k = m k := by
  have hfind := Queue.find_head hp
  have hremoval := Queue.decide_removal hfind
  rw [Queue.without_head hp] at hremoval
  cases o with
  | success | unrecoverable reason =>
    exact ⟨_, _, hremoval, rfl, fun _ _ hk => Queue.effect_delete_of_ne hk⟩
  | recoverable reason =>
    simp only [Run.ack, Queue.decide, hfind, ceiling_iff, fate]
    by_cases hroom : p.attempts.toNat + 1 < q.config.maxAttempts.toNat
    · have hreplace : q.replace p.attempted =
          { q with pings := Fate.retained.left p ++ rest } := by
        simp [Queue.replace, Queue.replaceFirst, hp, Fate.left, attempted_of_room hroom]
      rw [if_neg (not_not_intro hroom), if_pos hroom, hreplace]
      exact ⟨_, _, rfl, rfl, fun _ _ hk => Queue.effect_put_of_ne hk⟩
    · rw [if_pos hroom, if_neg hroom, Queue.without_head hp]
      exact ⟨_, _, rfl, rfl, fun _ _ hk => Queue.effect_delete_of_ne hk⟩

/-- What the run makes of the reply. -/
theorem account_fate (d : Desk) (p : Ping) (s : Summary) (o : Outcome) (K : UInt32) :
    ∃ n, Run.account d p s o ((fate K p o).reply p) =
      (if o.isRecoverable then
        .finished (.ok { s.plus [fate K p o] with stopReason := .recoverableFailure })
      else .looking (s.plus [fate K p o]), d.scheduler.plus [fate K p o] 0, n) := by
  cases o with
  | success | unrecoverable reason => exact ⟨_, rfl⟩
  | recoverable reason =>
    simp only [fate]
    split
    · exact ⟨_, rfl⟩
    · exact ⟨_, rfl⟩

/-- The oldest ping is handed over. -/
theorem gives_look (hd : d.Sound) (hp : d.queue.pings = p :: rest) :
    (Run.act d (.looking s) (.look false false)).Gives b st ([.called p], .uploading p s, d) st := by
  have hcall : Run.call d (.uploading p s) = ([.called p], .uploading p s, d) := by
    simp [Run.call, hd.uncancelled]
  simp only [Run.act, hd.uncancelled, Queue.attend_peek, hd.well, hp, Program.bind, Bool.false_and,
    Bool.false_eq_true, if_false]
  refine ((quiet_looked_cons d s p []).gives b st).bind ?_
  rw [hcall]
  exact .done _ st

/-- There is none left. -/
theorem gives_last_look (hd : d.Sound) (hp : d.queue.pings = []) :
    (Run.act d (.looking s) (.look false false)).Gives b st
      ([], .finished (.ok { s with stopReason := .queueEmpty }), d) st := by
  simp only [Run.act, hd.uncancelled, Queue.attend_peek, hd.well, hp, Program.bind, Bool.false_and,
    Bool.false_eq_true, if_false]
  exact .done _ st

/-- The desk after a trial. -/
def Desk.tried (d : Desk) (t : Trial) (rest : List Ping) : Desk :=
  let f := t.fate d.scheduler.plan d.queue.config.maxAttempts
  ⟨d.scheduler.plus [f] (t.answer.late d.scheduler.plan),
    { d.queue with pings := f.left t.ping ++ rest }⟩

theorem gives_answer (hd : d.Sound) (p : Ping) (s : Summary) (a : Answer) (st : σ) : ∃ x,
    (Run.act d (.uploading p s)
      (if a.inTime d.scheduler.plan then .hear a.outcome else .expire)).Gives b st
      ([x], .settling p (a.verdict d.scheduler.plan) s,
        { d with scheduler := d.scheduler.plus [] (a.late d.scheduler.plan) }) st ∧
    x.lands = true ∧ x.called? = none := by
  cases h : a.inTime d.scheduler.plan with
  | true =>
    refine ⟨.answered p a.outcome, ?_, rfl, rfl⟩
    simp only [Run.act, hd.uncancelled, Answer.verdict, Answer.late, h, if_true]
    exact .done _ st
  | false =>
    refine ⟨.expired p, ?_, rfl, rfl⟩
    simp only [Run.act, hd.uncancelled, Answer.verdict, Answer.late, h, Bool.false_eq_true, if_false]
    exact .done _ st

theorem gives_settle (hb : b.Healthy view well) (hst : well st) (hd : d.Sound)
    (hp : d.queue.pings = p :: rest) (s : Summary) (o : Outcome) :
    let f := fate d.queue.config.maxAttempts p o
    ∃ x st', (Run.act d (.settling p o s) (.settle false)).Gives b st
      ([.acked (Run.ack p o) x],
        if o.isRecoverable then
          .finished (.ok { s.plus [f] with stopReason := .recoverableFailure })
        else .looking (s.plus [f]),
        ⟨d.scheduler.plus [f] 0, { d.queue with pings := f.left p ++ rest }⟩) st' ∧
    well st' ∧ Along (view st) d.queue.pings (view st') (f.left p ++ rest) [p] := by
  intro f
  obtain ⟨c, notice, hdecide, hkey, huntouched⟩ := decide_ack hp o
  have hvalid : ∀ k ∈ c.key?, ValidKey k := by
    intro k hk
    rw [hkey] at hk
    cases hk
    exact p.id.validKey_text
  obtain ⟨st', hgives, hst', hview⟩ := Queue.gives_write hb hst hd.well hdecide hvalid
  obtain ⟨n, haccount⟩ := account_fate { d with queue := { d.queue with pings := f.left p ++ rest } }
    p s o d.queue.config.maxAttempts
  have hsettled := (quiet_settled_ok { d with queue := { d.queue with pings := f.left p ++ rest } } p o
    s (f.reply p)).gives b st'
  rw [haccount] at hsettled
  refine ⟨_, st', hgives.bind (hsettled.bind (.done _ _)), hst', ?_, ?_⟩
  · intro hmirror
    rw [hview]
    exact hmirror.change (fun x hx => by cases o <;> cases hx) (Queue.change_of_decide hdecide).1
  · intro k hk
    rw [hview]
    exact huntouched _ k (hk p (List.mem_singleton_self p))

end

/-! ## The whole run -/

section
open Trials
variable {σ : Type} {b : Backend σ} {view : σ → Content} {well : σ → Prop}

/-- What a run comes to that has counted `s` so far and will make the trials `ts`. -/
structure Finishes (view : σ → Content) (ts : List Trial) (d : Desk) (s : Summary) (st : σ)
    (seen : List Crew.Event) (x : Scene σ) : Prop where
  returned : x.crew.runs = [.finished (.ok
    { s.plus (fates d.scheduler.plan d.queue.config.maxAttempts ts) with
      stopReason := stop d.scheduler.plan ts })]
  called : Crew.calls x.seen = Crew.calls seen ++ (made d.scheduler.plan ts).map (·.ping)
  desk : x.crew.desk = Desk.withTurn
    ⟨d.scheduler.plus (fates d.scheduler.plan d.queue.config.maxAttempts ts)
      (late d.scheduler.plan ts),
    { d.queue with pings := kept d.scheduler.plan d.queue.config.maxAttempts ts ++
      (ts.drop (reach d.scheduler.plan ts)).map (·.ping) }⟩ .free
  along : Along (view st) d.queue.pings (view x.store) x.crew.desk.queue.pings
    ((made d.scheduler.plan ts).map (·.ping))

theorem Finishes.nil (d : Desk) (s : Summary) (st : σ) (seen : List Crew.Event)
    (hl : d.queue.pings = []) : Finishes view [] d s st seen
      ⟨⟨d.withTurn .free, [.finished (.ok { s with stopReason := .queueEmpty })]⟩, st,
        seen ++ [.run 0 (.returned (.ok { s with stopReason := .queueEmpty }))]⟩ where
  returned := rfl
  called := Crew.calls_append _ _
  desk := by
    obtain ⟨scheduler, config, pings, next, faulted, report⟩ := d
    obtain rfl : pings = [] := hl
    rfl
  along := Along.refl (view st) d.queue.pings

variable {u : Uploader} {p : Ping} {rest : List Ping} {d : Desk} {s : Summary} {st st' : σ}
  {seen seen' : List Crew.Event} {t : Trial} {ts : List Trial}

theorem Finishes.fails (hfails : t.fails d.scheduler.plan = true)
    (hrest : ts.map (·.ping) = rest) (hcalls : Crew.calls seen' = Crew.calls seen ++ [t.ping])
    (halong : Along (view st) d.queue.pings (view st') (d.tried t rest).queue.pings [t.ping]) :
    Finishes view (t :: ts) d s st seen ⟨⟨(d.tried t rest).withTurn .free,
      [.finished (.ok { s.plus [t.fate d.scheduler.plan d.queue.config.maxAttempts] with
        stopReason := .recoverableFailure })]⟩, st', seen'⟩ where
  returned := by rw [fates_cons, stop_cons, if_pos hfails, if_pos hfails]
  called := by
    rw [made_cons, if_pos hfails, hcalls]
    rfl
  desk := by
    rw [fates_cons, late_cons, kept_of_fails hfails, drop_reach_cons, if_pos hfails, if_pos hfails,
      if_pos hfails, hrest]
    rfl
  along := by
    rw [made_cons, if_pos hfails]
    exact halong

theorem Finishes.next {x : Scene σ} (hfails : t.fails d.scheduler.plan = false)
    (hcalls : Crew.calls seen' = Crew.calls seen ++ [t.ping])
    (halong : Along (view st) d.queue.pings (view st') (d.tried t rest).queue.pings [t.ping])
    (h : Finishes view ts (d.tried t rest)
      (s.plus [t.fate d.scheduler.plan d.queue.config.maxAttempts]) st' seen' x) :
    Finishes view (t :: ts) d s st seen x where
  returned := by
    rw [h.returned, Summary.plus_plus, fates_cons, stop_cons, hfails]
    rfl
  called := by
    rw [h.called, hcalls, made_cons, hfails, List.append_assoc]
    rfl
  desk := by
    rw [h.desk, Desk.tried, Scheduler.plus_plus, fates_cons, late_cons, kept_of_not_fails hfails,
      drop_reach_cons, hfails]
    rfl
  along := by
    rw [made_cons, hfails]
    exact halong.trans h.along

/-- The oldest ping is handed over and the answer is awaited. -/
theorem leads_settling (b : Backend σ) (u : Uploader) (s : Summary) (st : σ)
    (seen : List Crew.Event) (hd : d.Sound) (hp : d.queue.pings = p :: rest) :
    let a := u (Crew.landings seen) p
    ∃ seen', Scene.Leads b u ⟨⟨d, [.looking s]⟩, st, seen⟩
      ⟨⟨{ d with scheduler := d.scheduler.plus [] (a.late d.scheduler.plan) },
        [.settling p (a.verdict d.scheduler.plan) s]⟩, st, seen'⟩ ∧
      Crew.landings seen' = Crew.landings seen + 1 ∧ Crew.calls seen' = Crew.calls seen ++ [p] := by
  intro a
  have hlook : Scene.Leads b u ⟨⟨d, [.looking s]⟩, st, seen⟩
      ⟨⟨d, [.uploading p s]⟩, st, seen ++ [.run 0 (.called p)]⟩ :=
    Scene.leads_of_act u seen rfl rfl (gives_look hd hp) rfl
  obtain ⟨x, hgives, hlands, hcalled⟩ := gives_answer (b := b) hd p s a st
  have hlandings : Crew.landings (seen ++ [.run 0 (.called p)]) = Crew.landings seen :=
    Crew.landings_append _ _
  have hnext : (Run.Phase.uploading p s).next? d.scheduler.plan
      (u (Crew.landings (seen ++ [.run 0 (.called p)]))) =
      some (if a.inTime d.scheduler.plan then .hear a.outcome else .expire) := by
    rw [hlandings]
    rfl
  have hanswer := Scene.leads_of_act u (seen ++ [.run 0 (.called p)]) rfl hnext hgives rfl
  refine ⟨_, hlook.trans hanswer, ?_, ?_⟩
  · rw [Crew.landings_append_deed, hlandings, if_pos hlands]
  · rw [Crew.calls_append_deed hcalled, Crew.calls_append]
    rfl

/-- The answer is acknowledged. -/
theorem gives_trial (hb : b.Healthy view well) (hst : well st) (hd : d.Sound)
    (hp : d.queue.pings = t.ping :: rest) (s : Summary) : ∃ x st',
      (Run.act { d with scheduler := d.scheduler.plus [] (t.answer.late d.scheduler.plan) }
        (.settling t.ping (t.answer.verdict d.scheduler.plan) s) (.settle false)).Gives b st
        ([x], if t.fails d.scheduler.plan then
            .finished (.ok { s.plus [t.fate d.scheduler.plan d.queue.config.maxAttempts] with
              stopReason := .recoverableFailure })
          else .looking (s.plus [t.fate d.scheduler.plan d.queue.config.maxAttempts]),
          d.tried t rest) st' ∧
      (x.lands = false ∧ x.called? = none) ∧ well st' ∧
      Along (view st) d.queue.pings (view st') (d.tried t rest).queue.pings [t.ping] := by
  obtain ⟨reply, st', hgives, hst', halong⟩ := gives_settle
    (d := { d with scheduler := d.scheduler.plus [] (t.answer.late d.scheduler.plan) }) hb hst
    ⟨hd.well, hd.active, hd.uncancelled⟩ hp s (t.answer.verdict d.scheduler.plan)
  exact ⟨_, st', hgives, ⟨rfl, rfl⟩, hst', halong⟩

/-- A run that is about to look on comes to what is expected. -/
theorem leads_looking (hb : b.Healthy view well) (u : Uploader) (l : List Ping) (s : Summary)
    (seen : List Crew.Event) {d : Desk} {st : σ} (hst : well st) (hd : d.Sound)
    (hline : d.scheduler.turn.line = []) (hl : d.queue.pings = l) :
    ∃ x, Scene.Leads b u ⟨⟨d, [.looking s]⟩, st, seen⟩ x ∧
      Finishes view (Trials.of (fun k => u (Crew.landings seen + k)) l) d s st seen x := by
  -- on the pending pings: once the first is out of the queue the run is about to look on again
  induction l generalizing d s st seen with
  | nil =>
    exact ⟨_, Scene.leads_of_end u seen rfl rfl (gives_last_look hd hl) hline,
      .nil d s st seen hl⟩
  | cons p rest ih =>
    let t : Trial := ⟨p, u (Crew.landings seen) p⟩
    have hts : Trials.of (fun k => u (Crew.landings seen + k)) (p :: rest) =
        t :: Trials.of (fun k => u (Crew.landings seen + (k + 1))) rest := Trials.of_cons _ p rest
    obtain ⟨seen', hleads, hlandings, hcalls⟩ := leads_settling b u s st seen hd hl
    obtain ⟨x, st', hgives, ⟨hlands, hcalled⟩, hst', halong⟩ := gives_trial (t := t) hb hst hd hl s
    have hcalls' : Crew.calls (seen' ++ [x].map (.run 0)) = Crew.calls seen ++ [t.ping] := by
      rw [Crew.calls_append_deed hcalled, hcalls]
    rw [hts]
    cases hfails : t.fails d.scheduler.plan with
    | true =>
      rw [hfails, if_pos rfl] at hgives
      have hend := Scene.leads_of_end u seen' rfl rfl hgives hline
      refine ⟨_, hleads.trans hend, .fails hfails (Trials.map_ping_of _ rest) ?_ halong⟩
      rw [← List.append_assoc, Crew.calls_append, hcalls']
      exact List.append_nil _
    | false =>
      rw [hfails, if_neg Bool.false_ne_true] at hgives
      have hact := Scene.leads_of_act u seen' rfl rfl hgives rfl
      have hpings : (d.tried t rest).queue.pings = rest := by
        have hretained : t.fate d.scheduler.plan d.queue.config.maxAttempts ≠ .retained := by
          intro h
          rw [fate_eq_retained h] at hfails
          cases hfails
        simp [Desk.tried, Fate.left, hretained]
      have hshift : (fun k => u (Crew.landings seen + (k + 1))) =
          fun k => u (Crew.landings (seen' ++ [x].map (.run 0)) + k) := by
        funext k
        rw [Crew.landings_append_deed, hlandings, hlands, if_neg Bool.false_ne_true]
        exact congrArg u (by omega)
      obtain ⟨y, hy, hfinishes⟩ := ih (d := d.tried t rest)
        (s.plus [t.fate d.scheduler.plan d.queue.config.maxAttempts]) (seen' ++ [x].map (.run 0))
        hst' ⟨hd.well, hd.active, hd.uncancelled⟩ hline hpings
      rw [← hshift] at hfinishes
      exact ⟨y, hleads.trans (hact.trans hy), .next hfails hcalls' halong hfinishes⟩

theorem leads_first_look (b : Backend σ) (u : Uploader) (st : σ) (hd : d.Sound)
    (hfree : d.scheduler.turn = .free) : Scene.Leads b u ⟨⟨d, [.arriving]⟩, st, []⟩
      ⟨⟨d.withTurn ⟨true, []⟩, [.looking .zero]⟩, st, [.run 0 .took]⟩ := by
  have hask : (Crew.mk d [.arriving]).ask 0 =
      ([.run 0 .took], ⟨d.withTurn ⟨true, []⟩, [.admitted]⟩) := by
    simp [Crew.ask, Crew.turn, Turn.ask, hd.active, hfree, Turn.free]
  have hasked : Scene.Leads b u ⟨⟨d, [.arriving]⟩, st, []⟩
      ⟨⟨d.withTurn ⟨true, []⟩, [.admitted]⟩, st, [.run 0 .took]⟩ := by
    have hmv : (Scene.mk ⟨d, [.arriving]⟩ st []).next? u = some (.ask 0) := rfl
    refine Scene.leads_of_gives hmv ?_
    change (Program.done ((Crew.mk d [.arriving]).ask 0)).Gives b st _ st
    rw [hask]
    exact .done _ st
  have hturn : Run.takeTurn (d.withTurn ⟨true, []⟩) = .looking .zero := by
    change (if d.scheduler.suspended then _ else _) = _
    rw [hd.active]
    rfl
  have hentered : (Run.act (d.withTurn ⟨true, []⟩) .admitted .enter).Gives b st
      ([], .looking .zero, d.withTurn ⟨true, []⟩) st := by
    rw [Run.act, hturn]
    exact .done _ st
  exact hasked.trans (Scene.leads_of_act u _ rfl rfl hentered rfl)

/-- **A run by itself drains the queue as expected.** It returns with the summary expected, having
handed over the pings expected, and leaves the scheduler, the queue and its store as expected. -/
theorem drains (hb : b.Healthy view well) (u : Uploader) (hst : well st) (hd : d.Sound)
    (hfree : d.scheduler.turn = .free) :
    ∃ (n : Nat) (x : Scene σ), Scene.drive b u n ⟨⟨d, [.arriving]⟩, st, []⟩ = x ∧
      x.crew = ⟨(drain u d).desk, [.finished (.ok (drain u d).summary)]⟩ ∧
      Crew.calls x.seen = (drain u d).handed ∧
      Along (view st) d.queue.pings (view x.store) (drain u d).desk.queue.pings
        (drain u d).handed := by
  have hfirst := leads_first_look b u st hd hfree
  obtain ⟨x, hx, hfinishes⟩ := leads_looking (d := d.withTurn ⟨true, []⟩) hb u d.queue.pings .zero
    [.run 0 .took] hst ⟨hd.well, hd.active, hd.uncancelled⟩ rfl rfl
  have hu : (fun k => u (Crew.landings [.run 0 .took] + k)) = u := by
    funext k
    exact congrArg u (Nat.zero_add k)
  rw [hu] at hfinishes
  obtain ⟨n, hn⟩ := hfirst.trans hx
  have hhanded : (made d.scheduler.plan (Trials.of u d.queue.pings)).map (·.ping) =
      (drain u d).handed := by
    rw [made, List.map_take, Trials.map_ping_of]
    rfl
  have hdesk : x.crew.desk = (drain u d).desk := by
    rw [hfinishes.desk, List.map_drop, Trials.map_ping_of]
    refine congrArg (Desk.mk · _) ?_
    change { d.scheduler.plus _ _ with turn := Turn.free } = _
    rw [← hfree]
    rfl
  have hsummary : x.crew.runs = [.finished (.ok (drain u d).summary)] := by
    rw [hfinishes.returned]
    simp [drain, Summary.plus, Summary.zero, Desk.withTurn]
  refine ⟨n, x, hn, ?_, hfinishes.called.trans hhanded, ?_⟩
  · rw [← hdesk, ← hsummary]
  · have halong := hfinishes.along
    rw [hdesk] at halong
    exact hhanded ▸ halong

/-- Of three pings the first is uploaded and the second not answered for. -/
theorem drains_to_a_silence : ∃ (d : Desk) (u : Uploader) (n : Nat) (x : Scene Memory),
    d.queue.pings =
      [Queue.blank, { Queue.blank with id := .drawn 2 }, { Queue.blank with id := .drawn 3 }] ∧
    Scene.drive Memory.backend u n ⟨⟨d, [.arriving]⟩, ⟨.empty, false⟩, []⟩ = x ∧
    x.crew.runs = [.finished (.ok ⟨1, 0, 1, 0, .recoverableFailure⟩)] ∧
    Crew.calls x.seen = [Queue.blank, { Queue.blank with id := .drawn 2 }] ∧
    x.crew.desk.queue.pings =
      [{ Queue.blank with id := .drawn 2, attempts := 1 }, { Queue.blank with id := .drawn 3 }] ∧
    x.crew.desk.scheduler.stats = ⟨1, 1, 0, 0, 1⟩ := by
  let l : List Ping :=
    [Queue.blank, { Queue.blank with id := .drawn 2 }, { Queue.blank with id := .drawn 3 }]
  let d : Desk := { Client.plain.desk with queue := .restored .standard l 0 0 }
  let u : Uploader := fun k _ => ⟨.success, if k = 0 then some 0 else none⟩
  have hworking : Memory.Working ⟨.empty, false⟩ := ⟨rfl, fun k hk => by cases hk⟩
  obtain ⟨n, x, hx, hcrew, hcalls, -⟩ :=
    drains (d := d) Memory.healthy u hworking ⟨rfl, rfl, rfl⟩ rfl
  refine ⟨d, u, n, x, rfl, hx, ?_, hcalls, ?_, ?_⟩
  · rw [hcrew]
    rfl
  · rw [hcrew]
    rfl
  · rw [hcrew]
    rfl

end
end PingDelivery.Upload
