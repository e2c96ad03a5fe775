import PingDelivery.Proofs.Client.Delivery
import PingDelivery.Proofs.Client.Measurements

/-! # Submissions that come back

A submission that could not be queued is put in front of whatever is buffered. That is the place it
came from if everything of its ping that was taken out after it has ended before it. Otherwise it
goes ahead of events that are older: `returned` and `since` say exactly what lies in the buffer, and
under `LastFirst` nothing in it has changed its place.
-/

namespace PingDelivery
open Store Upload
open Lifecycle (Submission)

namespace Ledger

/-- The submissions of the ping that are under way, the latest first. -/
def pending (ping : String) : List Entry → List Submission
  | [] => []
  | .recorded _ _ :: es => pending ping es
  | .drained s _ :: es => if s.documentType = ping then s :: pending ping es else pending ping es
  | .sent _ s :: es | .oversized s :: es | .rejected s :: es | .restored s :: es =>
    (pending ping es).erase s

/-- What has been put back since the ping was last drained, the latest first. -/
def returned (ping : String) : List Entry → List Submission
  | [] => []
  | .drained s _ :: es => if s.documentType = ping then [] else returned ping es
  | .restored s :: es => if s.documentType = ping then s :: returned ping es else returned ping es
  | .recorded _ _ :: es | .sent _ _ :: es | .oversized _ :: es | .rejected _ :: es => returned ping es

/-- The events recorded since the ping was last drained. -/
def since (ping : String) : List Entry → List Event
  | [] => []
  | .recorded ping' e :: es => since ping es ++ if ping' = ping then [e] else []
  | .drained s _ :: es => if s.documentType = ping then [] else since ping es
  | .sent _ _ :: es | .oversized _ :: es | .rejected _ :: es | .restored _ :: es => since ping es

/-- Of the ping's submissions only the latest under way is ever put back. -/
def LastFirst (ping : String) : List Entry → Prop
  | [] => True
  | .restored s :: es =>
    (s.documentType = ping → (pending ping es).head? = some s) ∧ LastFirst ping es
  | _ :: es => LastFirst ping es

variable {ping : String} {es : List Entry} {b b' : Books} {s : Submission} {l : List Submission}

theorem ping_of_pending (h : s ∈ pending ping es) : s.documentType = ping := by
  induction es with
  | nil => cases h
  | cons e es ih =>
    cases e with
    | recorded ping' e => exact ih h
    | drained s' alone =>
      rw [pending] at h
      split at h
      · rename_i hs'
        rcases List.mem_cons.1 h with rfl | h
        · exact hs'
        · exact ih h
      · exact ih h
    | _ => exact ih (List.mem_of_mem_erase h)

theorem pending_erase_of_ne (h : s.documentType ≠ ping) : (pending ping es).erase s = pending ping es :=
  List.erase_of_not_mem fun hs => h (ping_of_pending hs)

/-- They are the ones that the books have. -/
theorem pending_perm (h : Books.opened.Posted es b) :
    (pending ping es).Perm (ofPing ping b.underway) := by
  have hends {es : List Entry} {b : Books} {s : Submission} {l : List Submission}
      (ih : (pending ping es).Perm (ofPing ping b.underway)) (hheld : b.underway.Perm (s :: l)) :
      ((pending ping es).erase s).Perm (ofPing ping l) := by
    have hperm := ih.trans (ofPing_perm ping hheld)
    by_cases hs : s.documentType = ping
    · rw [ofPing_cons_pos hs] at hperm
      exact (hperm.erase s).trans (by rw [List.erase_cons_head])
    · rw [pending_erase_of_ne hs]
      rwa [ofPing_cons_neg hs] at hperm
  induction h with
  | nil => exact .nil
  | cons _ he ih =>
    cases he with
    | recorded ping' e => exact ih
    | @drained s l _ hheld =>
      have hperm := ofPing_perm ping hheld
      rw [pending]
      by_cases hs : s.documentType = ping
      · rw [ofPing_cons_pos hs] at hperm
        rw [if_pos hs]
        exact (ih.cons s).trans hperm.symm
      · rw [ofPing_cons_neg hs] at hperm
        rw [if_neg hs]
        exact ih.trans hperm.symm
    | sent hheld _ => exact hends ih hheld
    | oversized hheld => exact hends ih hheld
    | rejected hheld _ => exact hends ih hheld
    | restored hheld => exact hends ih hheld

/-- **What lies in the buffer**: what was put back since the last drain, the latest first, and then what
was recorded since. -/
theorem buffered_eq (h : Books.opened.Posted es b) :
    b.buffered ping = events (returned ping es) ++ since ping es := by
  induction h with
  | nil => rfl
  | cons _ he ih =>
    cases he with
    | recorded ping' e =>
      dsimp only
      rw [returned, since, Function.update_apply]
      by_cases hp : ping' = ping
      · rw [if_pos hp.symm, if_pos hp, hp, ih, List.append_assoc]
      · rw [if_neg (Ne.symm hp), if_neg hp, ih, List.append_nil]
    | @drained s l _ _ =>
      dsimp only
      rw [returned, since, Function.update_apply]
      by_cases hs : s.documentType = ping
      · rw [if_pos hs.symm, if_pos hs, if_pos hs]
        rfl
      · rw [if_neg (Ne.symm hs), if_neg hs, if_neg hs, ih]
    | sent _ _ | oversized _ | rejected _ _ => exact ih
    | @restored s l _ =>
      dsimp only
      rw [returned, since, Function.update_apply]
      by_cases hs : s.documentType = ping
      · rw [if_pos hs.symm, if_pos hs, hs, ih, ← List.append_assoc]
        rfl
      · rw [if_neg (Ne.symm hs), if_neg hs, ih]

/-- What is under way and then what is buffered, in the order of its recording. -/
theorem sublist_recorded (h : Books.opened.Posted es b) (hlast : LastFirst ping es) :
    (events (pending ping es).reverse ++ b.buffered ping).Sublist (recorded ping es) := by
  have hends {es : List Entry} {l : List Event} (s : Submission)
      (ih : (events (pending ping es).reverse ++ l).Sublist (recorded ping es)) :
      (events ((pending ping es).erase s).reverse ++ l).Sublist (recorded ping es) :=
    ((List.erase_sublist.reverse.flatMap _).append_right l).trans ih
  induction h with
  | nil => exact .slnil
  | cons _ he ih =>
    cases he with
    | recorded ping' e =>
      have ih := ih hlast
      dsimp only
      rw [recorded_cons, Function.update_apply, pending]
      by_cases hp : ping' = ping
      · rw [if_pos hp.symm, if_pos hp, hp, ← List.append_assoc]
        exact ih.append_right [e]
      · rw [if_neg (Ne.symm hp), if_neg hp, List.append_nil]
        exact ih
    | @drained s l hall _ =>
      have ih := ih hlast
      dsimp only
      rw [Function.update_apply, pending]
      by_cases hs : s.documentType = ping
      · rw [if_pos hs.symm, if_pos hs, events_reverse_cons, List.append_nil, hall, hs]
        exact ih
      · rw [if_neg (Ne.symm hs), if_neg hs]
        exact ih
    | sent _ _ => exact hends _ (ih hlast)
    | oversized _ => exact hends _ (ih hlast)
    | rejected _ _ => exact hends _ (ih hlast)
    | @restored s l _ =>
      obtain ⟨hhead, hlast⟩ := hlast
      have ih := ih hlast
      dsimp only
      rw [Function.update_apply, pending]
      by_cases hs : s.documentType = ping
      · -- the submission goes back to where it was taken from
        obtain ⟨rest, hrest⟩ := List.head?_eq_some_iff.1 (hhead hs)
        rw [hrest, events_reverse_cons, List.append_assoc] at ih
        rw [if_pos hs.symm, hrest, List.erase_cons_head, hs]
        exact ih
      · rw [if_neg (Ne.symm hs), pending_erase_of_ne hs]
        exact ih

end Ledger

/-! ## Along a history -/

/-- **A submission that comes back goes ahead of everything buffered.** What lies in a ping's buffer is what
was put back since its last drain, the latest first, and then what was recorded since. Where only the
latest submission under way ever comes back, events keep their order: what is under way and then what is
buffered are in the order of recording, and with nothing under way what is buffered is all that was
recorded and neither queued nor dropped for its size. -/
theorem comes_back_ahead {m₀ : Content} {h : List Moment} {w : World} {c : Client} {ping : String}
    (hh : History ⟨m₀, none⟩ h w) (hc : w.client = some c) :
    c.lifecycle.buffer.events ping =
      Ledger.events (Ledger.returned ping (ledger h)) ++ Ledger.since ping (ledger h) ∧
    (Ledger.pending ping (ledger h)).Perm (Ledger.ofPing ping c.submissions) ∧
    (Ledger.LastFirst ping (ledger h) →
      (Ledger.events (Ledger.pending ping (ledger h)).reverse ++ c.lifecycle.buffer.events ping).Sublist
        (Ledger.recorded ping (ledger h)) ∧
      (Submission.IsDocumentType ping → Ledger.ofPing ping c.submissions = [] →
        (c.lifecycle.buffer.events ping).Sublist (Ledger.recorded ping (ledger h)) ∧
        (Ledger.recorded ping (ledger h)).Perm (c.lifecycle.buffer.events ping ++
          Ledger.events (Ledger.ofPing ping ((Ledger.sent (ledger h)).map (·.2))) ++
          Ledger.events (Ledger.ofPing ping (Ledger.oversized (ledger h)))))) := by
  obtain ⟨hposted, -⟩ := hh.booked c hc
  have hpending : (Ledger.pending ping (ledger h)).Perm (Ledger.ofPing ping c.submissions) :=
    Ledger.pending_perm hposted
  refine ⟨Ledger.buffered_eq hposted, hpending, fun hlast => ?_⟩
  have hsublist := Ledger.sublist_recorded hposted hlast
  refine ⟨hsublist, fun hping hnone => ⟨?_, ?_⟩⟩
  · have hempty : Ledger.pending ping (ledger h) = [] :=
      List.perm_nil.1 (hpending.trans (.of_eq hnone))
    rwa [hempty] at hsublist
  · have hperm := Ledger.recorded_perm hposted hping
    change (Ledger.ofPing ping c.books.underway) = [] at hnone
    rwa [hnone, Ledger.events, List.flatMap_nil, List.append_nil] at hperm

/-! ### Two submissions -/

/-- The submission of one event in a window of one. -/
def Lifecycle.Submission.ofEvent (n : Int64) : Submission :=
  ⟨"events", some Lifecycle.capacityReason,
    ⟨.empty, [⟨n, "a", "b", .empty⟩], ⟨0, 0, representable_zero⟩, ⟨0, 0, representable_zero⟩⟩⟩

/-- The ping it becomes under an id. -/
def Ping.ofEvent (n : Int64) (id : Uuid) : Ping :=
  Assembly.ping (Client.plain.lifecycle.request (.ofEvent n)) Opening.plain.config
    (Submission.ofEvent n).snapshot id ⟨0, 0, representable_zero⟩

/-- A plain process that has recorded two events, and where their submissions stand. -/
def Client.ofTwo (faulted : Bool) (first second : Stage) : Client where
  lifecycle := ((Client.plain.lifecycle.recordEvent ⟨0, 0, representable_zero⟩ "events"
    ⟨0, "a", "b", .empty⟩).1.recordEvent ⟨0, 0, representable_zero⟩ "events" ⟨1, "a", "b", .empty⟩).1
  desk := { Client.plain.desk with queue := { Client.plain.queue with faulted } }
  held := [⟨.ofEvent 0, first⟩, ⟨.ofEvent 1, second⟩]
  runs := []

theorem short_ofFirst : (Assembly.document (Client.plain.lifecycle.request (.ofEvent 0))
    Opening.plain.config (.drawn 3) (Submission.ofEvent 0).snapshot).chars.length ≤ 1000 := by
  decide +kernel

theorem short_ofSecond : (Assembly.document (Client.plain.lifecycle.request (.ofEvent 1))
    Opening.plain.config (.drawn 4) (Submission.ofEvent 1).snapshot).chars.length ≤ 1000 := by
  decide +kernel

theorem Moment.entries_of_assembled {t : Moment} {c : Client} {i : Nat} {now : Time.Instant}
    {fresh : Uuid} {s : Submission} {p : Ping} {drew : Bool} (hc : t.before.client = some c)
    (hd : t.deed = .act (.assemble i now fresh)) (hi : c.held[i]? = some ⟨s, .drained⟩)
    (hp : Assembly.assemble (c.lifecycle.request s) c.lifecycle.config s.snapshot
      c.lifecycle.maxPingSize fresh now = (.ok p, drew)) : t.entries = [] := by
  simp only [entries, hc, hd, Client.entries, hi, hp]

/-- Both events have been taken out as they were recorded, and neither ping could be queued: the store
failed under the first one. -/
theorem two_refused : ∃ h m e, History ⟨fun _ => none, none⟩ h
    ⟨m, some (.ofTwo true (.refused e) (.refused .suspended))⟩ ∧
      ledger h = [.drained (.ofEvent 1) false, .recorded "events" ⟨1, "a", "b", .empty⟩,
        .drained (.ofEvent 0) true, .recorded "events" ⟨0, "a", "b", .empty⟩] := by
  obtain ⟨tr, hopen⟩ := happens_open_nil
  let m : Content := fun _ => none
  let now : Time.Instant := ⟨0, 0, representable_zero⟩
  have hfirst := happens_act (c := .plain) (a := .recordEvent now "events" ⟨0, "a", "b", .empty⟩)
    m rfl rfl
  let c : Client := Client.plain.hold
    (Client.plain.lifecycle.recordEvent now "events" ⟨0, "a", "b", .empty⟩).1 (some (.ofEvent 0))
  have hsecond : Moment.Happens ⟨⟨m, some c⟩, .act (.recordEvent now "events" ⟨1, "a", "b", .empty⟩),
    [], some (none, some (.ofTwo false .drained .drained)), m⟩ := happens_act m rfl rfl
  have hmade : Assembly.assemble _ _ _ LifecycleSettings.standard.maxPingSize _ now = _ :=
    assemble_of_short (by decide) short_ofFirst (by decide)
  have hmade' : Assembly.assemble _ _ _ LifecycleSettings.standard.maxPingSize _ now = _ :=
    assemble_of_short (by decide) short_ofSecond (by decide)
  have hassemble := happens_assemble (c := .ofTwo false .drained .drained) (i := 0) m rfl hmade
  have hassemble' := happens_assemble
    (c := .ofTwo false (.assembled (.ofEvent 0 (.drawn 3))) .drained) (i := 1) m rfl hmade'
  obtain ⟨_, hfailed⟩ := Queue.follows_enqueue_failed (q := Client.plain.queue)
    (p := .ofEvent 0 (.drawn 3)) rfl rfl m Memory.failure
  obtain ⟨_, hrefuse⟩ := happens_refuse
    (c := .ofTwo false (.assembled (.ofEvent 0 (.drawn 3))) (.assembled (.ofEvent 1 (.drawn 4))))
    (i := 0) rfl (fits_of_short (by decide) (by decide +kernel) short_ofFirst) hfailed
  have hsuspended := Queue.follows_suspended (q := { Client.plain.queue with faulted := true }) rfl m
    (.enqueue (.ofEvent 1 (.drawn 4)))
  obtain ⟨_, hrefuse'⟩ := happens_refuse (c := .ofTwo true (.refused (.storage Memory.failure))
      (.assembled (.ofEvent 1 (.drawn 4)))) (i := 1) rfl
    (fits_of_short (by decide) (by decide +kernel) short_ofSecond) hsuspended
  refine ⟨_, m, .storage Memory.failure, ((((((History.start.next hopen).next hfirst).next hsecond).next
    hassemble).next hassemble').next hrefuse).next hrefuse', ?_⟩
  refine (ledger_of_silent rfl rfl).trans ((ledger_of_silent rfl rfl).trans ?_)
  refine (ledger_of_silent rfl (Moment.entries_of_assembled
    (c := .ofTwo false (.assembled (.ofEvent 0 (.drawn 3))) .drained) rfl rfl rfl hmade')).trans ?_
  exact (ledger_of_silent rfl (Moment.entries_of_assembled
    (c := .ofTwo false .drained .drained) rfl rfl rfl hmade)).trans rfl

/-- The latest comes back first, and both events are in their order again. -/
theorem two_in_order : ∃ h w c, History ⟨fun _ => none, none⟩ h w ∧ w.client = some c ∧
    c.submissions = [] ∧ Ledger.LastFirst "events" (ledger h) ∧
    (c.lifecycle.buffer.events "events").Sublist (Ledger.recorded "events" (ledger h)) ∧
    c.lifecycle.buffer.events "events" = [⟨0, "a", "b", .empty⟩, ⟨1, "a", "b", .empty⟩] := by
  obtain ⟨h, m, e, hh, hledger⟩ := two_refused
  let c : Client := .ofTwo true (.refused e) (.refused .suspended)
  let now : Time.Instant := ⟨0, 0, representable_zero⟩
  have hsecond := happens_act (c := c) (a := .takeBack 1 now) m rfl rfl
  have hfirst := happens_act (c := c.release 1 (c.lifecycle.takeBack now (.ofEvent 1)))
    (a := .takeBack 0 now) m rfl rfl
  obtain ⟨h', hh', hledger'⟩ : ∃ h', History ⟨fun _ => none, none⟩ h' ⟨m, some _⟩ ∧ ledger h' =
      [.restored (.ofEvent 0), .restored (.ofEvent 1)] ++ ledger h :=
    ⟨_, (hh.next hsecond).next hfirst, by rw [ledger_cons _ rfl, ledger_cons _ rfl]; rfl⟩
  have hlast : Ledger.LastFirst "events" (ledger h') := by
    rw [hledger', hledger]
    exact ⟨fun _ => rfl, fun _ => rfl, trivial⟩
  obtain ⟨-, -, horder⟩ := comes_back_ahead hh' rfl
  obtain ⟨hsublist, -⟩ := (horder hlast).2 (by decide) rfl
  exact ⟨h', _, _, hh', rfl, rfl, hlast, hsublist, rfl⟩

/-- The earliest comes back first, and with nothing queued or dropped and nothing under way the events lie
in the buffer the other way round. -/
theorem two_swapped : ∃ h w c, History ⟨fun _ => none, none⟩ h w ∧ w.client = some c ∧
    c.submissions = [] ∧ Ledger.sent (ledger h) = [] ∧ Ledger.oversized (ledger h) = [] ∧
    Ledger.recorded "events" (ledger h) = [⟨0, "a", "b", .empty⟩, ⟨1, "a", "b", .empty⟩] ∧
    c.lifecycle.buffer.events "events" = [⟨1, "a", "b", .empty⟩, ⟨0, "a", "b", .empty⟩] := by
  obtain ⟨h, m, e, hh, hledger⟩ := two_refused
  let c : Client := .ofTwo true (.refused e) (.refused .suspended)
  let now : Time.Instant := ⟨0, 0, representable_zero⟩
  have hfirst := happens_act (c := c) (a := .takeBack 0 now) m rfl rfl
  have hsecond := happens_act (c := c.release 0 (c.lifecycle.takeBack now (.ofEvent 0)))
    (a := .takeBack 0 now) m rfl rfl
  have hall := (hh.next hfirst).next hsecond
  refine ⟨_, _, _, hall, rfl, rfl, ?_⟩
  rw [ledger_cons _ rfl, ledger_cons _ rfl, hledger]
  exact ⟨rfl, rfl, rfl, rfl⟩

end PingDelivery
