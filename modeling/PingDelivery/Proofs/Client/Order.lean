import PingDelivery.Proofs.Client.Steps

/-! # Oldest first, across restarts

After an opening the next number is one more than that of the last ping left, so numbers come back
that acknowledged pings have borne. No pending ping is confused by that: along every history from a
store without pings the pending list is a part of the order in which pings were taken, and its
numbers ascend and lie below the next one. The invariant speaks of the list that the store mirrors,
so that it carries over the times when no process is there.
-/

namespace PingDelivery
open Store Upload

/-- The pings that were taken, the oldest first: those whose enqueue returned `Ok`, and those whose
record was written by an enqueue under which the process died. -/
def taken (h : List Moment) : List Ping := (h.filterMap Moment.accepted?).reverse

namespace Moment

/-- A run hands the ping to the uploader. -/
def Hands (t : Moment) (p : Ping) : Prop :=
  ∃ (c c' : Client) (i : Nat) (passed : Bool) (s : Summary),
    t.before.client = some c ∧ t.deed = .act (.look i passed) ∧
      c.runs[i]? = some (.looking s) ∧ t.after.client = some c' ∧
        c'.runs[i]? = some (.uploading p s)

end Moment

def returned (h : List Moment) : List Ping := (h.filterMap Moment.returned?).reverse

/-- The list is what the store holds, in the order of its taking. -/
structure World.InOrder (h : List Moment) (w : World) (l : List Ping) : Prop where
  mirror : Queue.Mirror w.content l
  ascending : Queue.Ascending l
  order : (l.map Ping.lasting).Sublist ((taken h).map Ping.lasting)
  client : ∀ c, w.client = some c → c.queue.pings = l ∧ Queue.Numbered c.queue

theorem taken_cons (t : Moment) (h : List Moment) :
    taken (t :: h) = taken h ++ t.accepted?.toList := by
  rw [taken, List.filterMap_cons]
  cases t.accepted? with
  | none => exact (List.append_nil _).symm
  | some p => exact List.reverse_cons

theorem taken_sublist (t : Moment) (h : List Moment) :
    ((taken h).map Ping.lasting).Sublist ((taken (t :: h)).map Ping.lasting) := by
  rw [taken_cons, List.map_append]
  exact List.sublist_append_left _ _

/-- A ping that is taken while the process lives is one whose enqueue returned `Ok`. -/
theorem Moment.returned_eq_accepted {t : Moment} (halive : t.result = none → t.accepted? = none) :
    t.returned? = t.accepted? := by
  cases hp : t.accepted? with
  | none =>
    rw [Moment.accepted?] at hp
    rw [Moment.returned?]
    split
    · rename_i p hreq
      rw [hreq] at hp
      simp only at hp
      split at hp
      · cases hp
      · rename_i hor
        exact if_neg fun hreply => hor (.inl hreply)
    · rfl
  | some p =>
    obtain ⟨hreq, hok | ⟨hdied, -⟩⟩ := Moment.accepted_cases hp
    · rw [Moment.returned?, hreq]
      exact if_pos hok
    · rw [halive hdied] at hp
      cases hp

/-- Where no process dies under an enqueue whose record is written, what was taken is what
returned. -/
theorem returned_eq_taken {h : List Moment}
    (halive : ∀ t ∈ h, t.result = none → t.accepted? = none) : returned h = taken h := by
  rw [returned, taken]
  refine congrArg List.reverse (List.filterMap_congr ?_)
  intro t ht
  exact Moment.returned_eq_accepted (halive t ht)

/-- A ping whose record a request has written was taken, whether or not the process lived to say
so. -/
theorem accepted_of_change {t : Moment} {c : Client} {a : Client.Action} {passed : Bool} {p : Ping}
    {call : Call} {q : Queue} {reply : Queue.Reply} {out : Option (Client.Reply × Client)}
    (hc : t.before.client = some c) (hd : t.deed = .act a)
    (hasks : c.asks a = some (passed, .enqueue p)) (hm : Queue.Mirror t.before.content c.queue.pings)
    (hchange : Queue.Change c.queue (.enqueue p) call q reply)
    (hcontent : t.content = call.effect t.before.content)
    (hresult : t.result = out.map fun x => (x.1, some x.2))
    (hreply : ∀ x c', out = some (x, c') → x = some (.ok reply)) : t.accepted? = some p := by
  obtain ⟨hnone, rfl, rfl, rfl⟩ := hchange.enqueue
  have hreq : t.request = some (.enqueue p) := by
    rw [Moment.request_of_act hc hd, hasks]
    rfl
  unfold Moment.accepted?
  rw [hreq]
  refine if_pos ?_
  cases out with
  | some x => exact .inl (by rw [Moment.reply, hresult]; exact hreply x.1 x.2 rfl)
  | none =>
    have hbefore : t.before.content (Record.key p.id) = none := by
      refine Option.not_isSome_iff_eq_none.1 ?_
      intro hsome
      obtain ⟨x, hx, hkey⟩ := hm.only _ (Record.isPingKey_key p.id) hsome
      exact Queue.ne_id_of_find hnone x hx (Record.key_injective hkey)
    refine .inr ⟨by rw [hresult]; rfl, ?_⟩
    rw [hbefore, hcontent]
    exact Option.ne_none_iff_exists'.2 ⟨_, Function.update_self _ _ _⟩

namespace World.InOrder

/-- A request that comes to a change keeps the order: a new ping goes to the back of both lists. -/
theorem changed {h : List Moment} {t : Moment} {c : Client} {a : Client.Action} {passed : Bool}
    {r : Queue.Request} {call : Call} {q : Queue} {reply : Queue.Reply}
    {out : Option (Client.Reply × Client)} (hw : t.before.InOrder h c.queue.pings)
    (hr : r.Fits) (hc : t.before.client = some c) (hd : t.deed = .act a)
    (hasks : c.asks a = some (passed, r)) (hchange : Queue.Change c.queue r call q reply)
    (hcontent : t.content = call.effect t.before.content)
    (hresult : t.result = out.map fun x => (x.1, some x.2))
    (hout : ∀ x c', out = some (x, c') → x = some (.ok reply) ∧ c'.queue = q)
    (hroom : ∀ c', t.after.client = some c' → c'.queue.Unexhausted) :
    t.after.InOrder (t :: h) q.pings := by
  obtain ⟨hmirror, hasc, horder, hclient⟩ := hw
  obtain ⟨-, hnumbered⟩ := hclient c hc
  refine ⟨?_, hnumbered.ascending_change hmirror.distinct hchange, ?_, ?_⟩
  · change Queue.Mirror t.content q.pings
    rw [hcontent]
    exact hmirror.change hr hchange
  · rcases Queue.lasting_change hmirror.distinct hchange with ⟨p, rfl, hpushed⟩ | hsub
    · have htaken := accepted_of_change hc hd hasks hmirror hchange hcontent hresult
        fun x c' hx => (hout x c' hx).1
      rw [hpushed, taken_cons, htaken, List.map_append]
      exact horder.append_right _
    · exact hsub.trans (horder.trans (taken_sublist t h))
  · intro c' hc'
    have hunexhausted := hroom c' hc'
    rw [Moment.after, hresult] at hc'
    cases out with
    | none => cases hc'
    | some x =>
      cases hc'
      obtain ⟨-, hqueue⟩ := hout x.1 x.2 rfl
      rw [hqueue] at hunexhausted ⊢
      exact ⟨rfl, hnumbered.change hmirror.distinct hchange hunexhausted⟩

/-- A moment after which the pings are those that were there before keeps the order. -/
theorem same {h : List Moment} {t : Moment} {l : List Ping} (hw : t.before.InOrder h l)
    (hcontent : t.content = t.before.content)
    (hclient : ∀ c', t.after.client = some c' → c'.queue.pings = l ∧ Queue.Numbered c'.queue) :
    t.after.InOrder (t :: h) l where
  mirror := by
    change Queue.Mirror t.content l
    rw [hcontent]
    exact hw.mirror
  ascending := hw.ascending
  order := hw.order.trans (taken_sublist t h)
  client := hclient

theorem acted {h : List Moment} {t : Moment} {l : List Ping} {c : Client} {a : Client.Action}
    {out : Option (Client.Reply × Client)} (hw : t.before.InOrder h l) (ht : t.Happens)
    (hc : t.before.client = some c) (hd : t.deed = .act a)
    (hf : Follows (c.perform a) t.before.content t.trace out t.content)
    (hresult : t.result = out.map fun x => (x.1, some x.2))
    (hroom : ∀ c', t.after.client = some c' → c'.queue.Unexhausted) :
    ∃ l', t.after.InOrder (t :: h) l' := by
  obtain ⟨rfl, hnumbered⟩ := hw.client c hc
  -- what is known of the queue that a surviving process is left with
  have hsame (hcontent : t.content = t.before.content) (hqueue : ∀ x c', out = some (x, c') →
      c'.queue.pings = c.queue.pings ∧ c'.queue.nextSequence = c.queue.nextSequence) :
      ∃ l', t.after.InOrder (t :: h) l' := by
    refine ⟨_, hw.same hcontent ?_⟩
    intro c' hc'
    rw [Moment.after, hresult] at hc'
    cases out with
    | none => cases hc'
    | some x =>
      cases hc'
      obtain ⟨hpings, hnext⟩ := hqueue x.1 x.2 rfl
      refine ⟨hpings, hpings ▸ hnumbered.ascending, ?_⟩
      intro p hp
      rw [hpings] at hp
      exact hnext ▸ hnumbered.below p hp
  obtain ⟨-, ⟨-, hcontent, hout⟩ | ⟨passed, r, asked, hasks, hattended, hout⟩⟩ :=
    Client.perform_cases hf
  · refine hsame hcontent ?_
    intro x c' hx
    obtain ⟨-, hqueue, -⟩ := hout x c' hx
    rw [hqueue]
    exact ⟨rfl, rfl⟩
  · rcases hattended.same_or_change with ⟨hcontent, hkept⟩ | ⟨call, q, reply, hchange, hcontent, hq⟩
    · refine hsame hcontent ?_
      intro x c' hx
      obtain ⟨reply, q, hasked, -, rfl, -⟩ := hout x c' hx
      exact (hkept _ _ hasked).2
    · have hr : r.Fits := ht.fits r (by
        rw [Moment.request_of_act hc hd, hasks]
        rfl)
      refine ⟨_, hw.changed hr hc hd hasks hchange hcontent hresult (?_) hroom⟩
      intro x c' hx
      obtain ⟨reply', q', hasked, hreply, hqueue, -⟩ := hout x c' hx
      obtain ⟨rfl, rfl⟩ := hq _ _ hasked
      exact ⟨hreply, hqueue⟩

/-- An opening cuts a front part off. -/
theorem opened {h : List Moment} {t : Moment} {l : List Ping} {o : Opening}
    {out : Option (Option Client)} (hw : t.before.InOrder h l)
    (hf : Follows o.program t.before.content t.trace out t.content)
    (hresult : t.result = out.map fun c => (none, c))
    (hroom : ∀ c', t.after.client = some c' → c'.queue.Unexhausted) :
    ∃ l', t.after.InOrder (t :: h) l' := by
  obtain ⟨m₁, tr₁, opened, gone, kept, hpings, hrebuilt, -, hout⟩ := opening_cases hf
  have hmirror := hpings.mirror hw.mirror
  obtain ⟨l', hsuffix, hmirror', hl'⟩ := hrebuilt.mirrored hmirror hw.ascending
  have horder : (l'.map Ping.lasting).Sublist (l.map Ping.lasting) :=
    map_lasting_settled l ▸ hsuffix.sublist.map Ping.lasting
  refine ⟨l', hmirror', hw.ascending.settled.sublist hsuffix.sublist,
    horder.trans (hw.order.trans (taken_sublist t h)), fun c' hc' => ?_⟩
  have hunexhausted := hroom c' hc'
  rw [Moment.after, hresult] at hc'
  cases out with
  | none => cases hc'
  | some x =>
    cases hc'
    obtain ⟨id, q, hq, rfl⟩ := hout c' rfl
    refine ⟨hl' q hq, .opened hrebuilt hq (?_) hunexhausted⟩
    intro l'' hl''
    obtain rfl := hl''.eq_of_mirror hmirror hw.ascending
    exact hw.ascending.settled

theorem step {h : List Moment} {t : Moment} {l : List Ping} (hw : t.before.InOrder h l)
    (ht : t.Happens) (hroom : ∀ c, t.after.client = some c → c.queue.Unexhausted) :
    ∃ l', t.after.InOrder (t :: h) l' := by
  cases ht.course with
  | acted hc hd hf hresult => exact hw.acted ht hc hd hf hresult hroom
  | opened hc hd hf hresult => exact hw.opened hf hresult hroom
  | idle hm htr hacts hopens hafter =>
    refine ⟨l, hw.same hm ?_⟩
    intro c hc
    rcases hafter with hnone | hsame
    · rw [hnone] at hc
      cases hc
    · exact hw.client c (hsame ▸ hc)

end World.InOrder

theorem History.inOrder {m₀ : Content} {h : List Moment} {w : World}
    (hempty : ∀ k, Record.isPingKey k = true → m₀ k = none) (hh : History ⟨m₀, none⟩ h w)
    (hroom : ∀ t ∈ h, ∀ c, t.after.client = some c → c.queue.Unexhausted) :
    ∃ l, w.InOrder h l := by
  induction hh with
  | start =>
    refine ⟨[], ⟨List.nodup_nil, fun p hp => absurd hp List.not_mem_nil, ?_⟩, .nil,
      List.nil_sublist _, fun c hc => by cases hc⟩
    intro k hk hsome
    exact absurd (hempty k hk) (Option.isSome_iff_ne_none.1 hsome)
  | @next h t _ ht ih =>
    obtain ⟨l, hl⟩ := ih fun u hu => hroom u (List.mem_cons_of_mem _ hu)
    exact hl.step ht (hroom t List.mem_cons_self)

/-! ## Handing over -/

/-- A peek gives the first pings, or nothing when the queue is suspended. -/
theorem Queue.perform_peek (q : Queue) (n : Nat) : q.perform (.peek n) =
    .done (if q.faulted then .error .suspended else .ok (.pings (q.pings.take n)), q) := by
  rw [perform, health]
  cases q.faulted with
  | false => rfl
  | true => rfl

/-- A peek that gives a ping first gives the first pending one. -/
theorem Queue.Attended.head {q : Queue} {limit : Nat} {m m' : Content} {p : Ping}
    {a : Except QueueError Reply} {q' : Queue} {rest : List Ping}
    (h : Attended q (.peek limit) m (some (a, q')) m') (ha : a = .ok (.pings (p :: rest))) :
    ∃ rest', q.pings = p :: rest' := by
  cases h with
  | refused e => cases ha
  | failed e => cases ha
  | peeked hr =>
    have htake := Queue.Reply.pings.inj (Except.ok.inj ha)
    obtain ⟨tail, htail⟩ := List.take_prefix _ q.pings
    rw [htake] at htail
    exact ⟨rest ++ tail, htail.symm⟩
  | written hc =>
    cases hc with
    | acked hr _ => rcases hr with hr | hr <;> cases hr

theorem not_idle_uploading (p : Ping) (s : Summary) : ¬ Run.Phase.Idle (.uploading p s) := by
  rintro (⟨_, h⟩ | ⟨_, h⟩) <;> cases h

/-- What a run hands over is the first pending ping. -/
theorem Moment.Hands.head {t : Moment} {p : Ping} (h : t.Hands p) (ht : t.Happens) :
    ∃ c rest, t.before.client = some c ∧ c.queue.pings = p :: rest := by
  obtain ⟨c, c', i, passed, s, hc, hd, hlooking, hc', hrun⟩ := h
  have hstep {r : Client.Reply} (hstep : c.RunStep (.look i passed) r c'.runs) :
      ∃ rest, r = some (.ok (.pings (p :: rest))) := by
    rcases hstep.busy hrun (not_idle_uploading p s) with hrun | ⟨_, _, _, rest, _, -, hr, h⟩ |
      ⟨_, _, _, _, h, -⟩
    · rw [hlooking] at hrun
      cases hrun
    · cases h
      exact ⟨rest, hr⟩
    · cases h
  cases ht.lives hc' with
  | opened hnone _ _ _ _ =>
    rw [hc] at hnone
    cases hnone
  | idle _ _ hacts => exact absurd hd (hacts _)
  | @acted c₁ a r hc₁ hd₁ hreply hf =>
    rw [hc] at hc₁
    cases hc₁
    rw [hd] at hd₁
    cases hd₁
    obtain ⟨-, ⟨-, -, hout⟩ | ⟨_, r', asked, hasks, hattended, hout⟩⟩ := Client.perform_cases hf
    · obtain ⟨-, -, hrunStep⟩ := hout _ _ rfl
      obtain ⟨_, hr⟩ := hstep hrunStep
      cases hr
    · obtain ⟨reply, q, rfl, -, -, hrunStep⟩ := hout _ _ rfl
      obtain ⟨rest, hr⟩ := hstep hrunStep
      have hpeek : r' = .peek 1 := by
        rw [Client.asks, hlooking] at hasks
        simp only at hasks
        split at hasks <;> cases hasks
        rfl
      rw [hpeek] at hattended
      obtain ⟨tail, htail⟩ := hattended.head (Option.some.inj hr)
      exact ⟨c, tail, hc, htail⟩

/-- **Oldest first, across restarts.** Along every history from a store without pings, with crashes
and openings anywhere in it, the pending pings are a part of those that were taken, in that order, and
their numbers ascend and lie below the next one. A peek that is not refused gives the first of them,
and a run never uploads any but the first. -/
theorem oldest_first {m₀ : Content} {h : List Moment} {w : World}
    (hempty : ∀ k, Record.isPingKey k = true → m₀ k = none) (hh : History ⟨m₀, none⟩ h w)
    (hroom : ∀ t ∈ h, ∀ c, t.after.client = some c → c.queue.Unexhausted) :
    (∀ c, w.client = some c →
      (c.queue.pings.map Ping.lasting).Sublist ((taken h).map Ping.lasting) ∧
      ((∀ t ∈ h, t.result = none → t.accepted? = none) →
        (c.queue.pings.map Ping.lasting).Sublist ((returned h).map Ping.lasting)) ∧
      Queue.Ascending c.queue.pings ∧
      (∀ p ∈ c.queue.pings, p.sequence < c.queue.nextSequence) ∧
      ∀ n, (c.queue.pings.take n).length = min n c.queue.pings.length ∧
        c.queue.perform (.peek n) =
          .done (if c.queue.faulted then .error .suspended else .ok (.pings (c.queue.pings.take n)),
            c.queue)) ∧
    ∀ (t : Moment) (p : Ping), t.before = w → t.Happens → t.Hands p →
      ∃ c rest, w.client = some c ∧ c.queue.pings = p :: rest ∧
        ∀ x ∈ rest, p.sequence < x.sequence := by
  obtain ⟨l, -, -, horder, hclient⟩ := hh.inOrder hempty hroom
  constructor
  · intro c hc
    obtain ⟨rfl, hnumbered⟩ := hclient c hc
    refine ⟨horder, ?_, hnumbered.ascending, hnumbered.below, fun n =>
      ⟨List.length_take, c.queue.perform_peek n⟩⟩
    intro halive
    rw [returned_eq_taken halive]
    exact horder
  · rintro t p rfl ht hhands
    obtain ⟨c, rest, hc, hpings⟩ := hhands.head ht
    obtain ⟨rfl, hnumbered⟩ := hclient c hc
    refine ⟨c, rest, hc, hpings, ?_⟩
    have hasc := hnumbered.ascending
    rw [hpings] at hasc
    exact (List.pairwise_cons.1 hasc).1

/-- One ping is taken: it is the pending list. -/
theorem oldest_first_of_one : ∃ h w c, History ⟨fun _ => none, none⟩ h w ∧ w.client = some c ∧
    c.queue.pings = [{ Queue.blank with sequence := 0 }] ∧
    (c.queue.pings.map Ping.lasting).Sublist ((returned h).map Ping.lasting) ∧
    c.queue.perform (.peek 5) = .done (.ok (.pings c.queue.pings), c.queue) := by
  obtain ⟨tr, hopen⟩ := happens_open_nil
  obtain ⟨tr', henqueue⟩ := happens_enqueue (c := .plain) (p := Queue.blank) (fun _ => none) rfl rfl
    Queue.fits_blank
  have hh := (History.start.next hopen).next henqueue
  obtain ⟨hclient, -⟩ := oldest_first (fun _ _ => rfl) hh fun t ht c hc => by
    rcases List.mem_cons.1 ht with rfl | ht
    · cases hc
      intro p hp
      cases List.mem_singleton.1 hp
      decide
    · cases List.mem_singleton.1 ht
      cases hc
      exact fun p hp => absurd hp List.not_mem_nil
  obtain ⟨-, hreturned, -, -, hpeek⟩ := hclient _ rfl
  obtain ⟨-, hpeek⟩ := hpeek 5
  refine ⟨_, _, _, hh, rfl, rfl, hreturned ?_, hpeek⟩
  intro t ht hdied
  rcases List.mem_cons.1 ht with rfl | ht
  · cases hdied
  · cases List.mem_singleton.1 ht
    cases hdied

/-- A process dies under an enqueue when the record is written. The next one finds the ping pending,
though no enqueue has returned. -/
theorem pending_unreturned : ∃ h w c, History ⟨fun _ => none, none⟩ h w ∧ w.client = some c ∧
    c.queue.pings = [Queue.blank] ∧ returned h = [] ∧
    ¬ (c.queue.pings.map Ping.lasting).Sublist ((returned h).map Ping.lasting) := by
  obtain ⟨tr, hopen⟩ := happens_open_nil
  obtain ⟨tr', henqueue⟩ := happens_enqueue (c := .plain) (p := Queue.blank) (fun _ => none) rfl rfl
    Queue.fits_blank
  have hmirror : Queue.Mirror (Memory.ofPings [Queue.blank]).records.get? [Queue.blank] :=
    Queue.mirror_ofPings (List.forall_mem_singleton.2 Queue.fits_blank) (List.nodup_singleton _)
  obtain ⟨tr'', hreopen⟩ := happens_open (o := .plain) rfl (working_ofPings _) hmirror
    (List.pairwise_singleton _ _) (List.forall_mem_singleton.2 (by decide)) (by decide)
  rw [get?_ofPings_cons] at hreopen
  have hh := ((History.start.next hopen).next henqueue.die).next hreopen
  refine ⟨_, _, _, hh, rfl, rfl, rfl, fun hsub => ?_⟩
  cases hsub.length_le

end PingDelivery
