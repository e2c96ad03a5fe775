import PingDelivery.Proofs.Twin.Client

/-! # Histories side by side

A `Saga` is a history in which uploads may take too long, which the scheduler counts. Two sagas are
parallel if the same is done in them, with configurations that are bonded, and the stores decide the
same. Parallel sagas over stores that are alike stay alike: `Saga.alike`.
-/

namespace PingDelivery
open Store Upload

/-! ## Sagas -/

/-- A run gives an upload up that has taken too long, and the scheduler counts it. -/
def Client.expire (c : Client) (i : Nat) : Client :=
  match c.runs[i]? with
  | some (.uploading p s) =>
    { c with
      desk := { c.desk with scheduler := c.desk.scheduler.mark .timeout }
      runs := c.runs.set i (.settling p (Run.timedOut c.desk.scheduler.plan) s) }
  | _ => c

inductive Episode where
  | moment (t : Moment)
  | timeout (before : World) (i : Nat)

namespace Episode

def before : Episode → World
  | moment t => t.before
  | timeout w _ => w

def after : Episode → World
  | moment t => t.after
  | timeout w i => { w with client := w.client.map (·.expire i) }

/-- What is done in it. -/
inductive Task where
  | deed (d : Deed)
  | timeout (i : Nat)

def task : Episode → Task
  | moment t => .deed t.deed
  | timeout _ i => .timeout i

def Happens : Episode → Prop
  | moment t => t.Happens
  | timeout _ _ => True

end Episode

/-- `Saga w₀ h w`: the episodes `h`, the latest first, led from `w₀` to `w`. -/
inductive Saga (w₀ : World) : List Episode → World → Prop where
  | start : Saga w₀ [] w₀
  | next {h : List Episode} {e : Episode} (hh : Saga w₀ h e.before) (he : e.Happens) :
      Saga w₀ (e :: h) e.after

namespace Saga
variable {w₀ w : World} {h : List Episode}

theorem happens (hh : Saga w₀ h w) : ∀ e ∈ h, e.Happens := by
  induction hh with
  | start => exact fun e he => by cases he
  | next _ hlast ih =>
    intro e he
    rcases List.mem_cons.1 he with rfl | he
    · exact hlast
    · exact ih e he

/-- What had happened before an episode. -/
theorem earlier {later earlier : List Episode} {e : Episode} (hh : Saga w₀ (later ++ e :: earlier) w) :
    Saga w₀ earlier e.before := by
  induction later generalizing w with
  | nil =>
    cases hh with
    | next hh _ => exact hh
  | cons _ _ ih =>
    cases hh with
    | next hh _ => exact ih hh

end Saga

theorem Moment.request_of_asks {t : Moment} {c : Client} {a : Client.Action}
    {x : Bool × Queue.Request} (hc : t.before.client = some c) (ha : t.deed = .act a)
    (hx : c.asks a = some x) : t.request = some x.2 := by
  rw [Moment.request, hc, ha]
  exact congrArg (Option.map (·.2)) hx

theorem Moment.of_request {t : Moment} {r : Queue.Request} (h : t.request = some r) :
    ∃ c a x, t.before.client = some c ∧ t.deed = .act a ∧ c.asks a = some x ∧ r = x.2 := by
  unfold Moment.request at h
  split at h
  · rename_i c a hc ha
    obtain ⟨x, hx, rfl⟩ := Option.map_eq_some_iff.1 h
    exact ⟨c, a, x, hc, ha, hx, rfl⟩
  · cases h

namespace Bond
variable {B : Bond}

/-! ## Opening -/

inductive Drawings (B : Bond) :
    Except Store.Error Uuid × Bool → Except Store.Error Uuid × Bool → Prop where
  | error (e : Store.Error) (drew : Bool) : B.Drawings (.error e, drew) (.error e, drew)
  | ok {id id' : Uuid} (h : B.ids id id') (drew : Bool) : B.Drawings (.ok id, drew) (.ok id', drew)

theorem programs_write (fresh : Uuid) :
    B.Programs B.Drawings ((ClientId.write fresh).bind fun r => .done (r, true))
      ((ClientId.write fresh).bind fun r => .done (r, true)) := by
  refine .put (.same _) fun r => ?_
  cases r with
  | error e => exact .done (.error e true)
  | ok _ => exact .tell (.same _) (.done (.ok (B.ids_refl fresh) true))

theorem programs_loadOrCreate (fresh : Uuid) :
    B.Programs B.Drawings (ClientId.loadOrCreate fresh) (ClientId.loadOrCreate fresh) := by
  refine .get (fun e => .done (.error e false)) fun x x' hx => ?_
  generalize hk : ClientId.key = k at hx
  cases hx with
  | same x =>
    cases x with
    | none => exact programs_write fresh
    | some b =>
      cases hid : ClientId.ofBytes? b with
      | none =>
        simp only [hid]
        exact .tell (.same _) (programs_write fresh)
      | some id =>
        simp only [hid]
        exact .done (.ok (B.ids_refl id) false)
  | @records p p' h =>
    have hping : Record.isPingKey ClientId.key = true := hk ▸ Record.isPingKey_key p.id
    exact absurd hping (by decide)
  | ids h =>
    obtain ⟨id, id', hb, hb', hid⟩ := B.stored_ids h
    simp only [hb, hb']
    exact .done (.ok hid false)

inductive Handles (B : Bond) : Ended LifecycleError (Lifecycle × Queue) × Bool →
    Ended LifecycleError (Lifecycle × Queue) × Bool → Prop where
  | error (e : LifecycleError) (drew : Bool) : B.Handles (.error e, drew) (.error e, drew)
  | panic (drew : Bool) : B.Handles (.panic, drew) (.panic, drew)
  | ok {l l' : Lifecycle} {q q' : Queue} (hl : B.Lifecycles l l') (hq : B.Queues q q') (drew : Bool) :
      B.Handles (.ok (l, q), drew) (.ok (l', q'), drew)

theorem lifecycles_create {c c' : Configuration} (hc : B.configs c c') (settings : LifecycleSettings)
    {id id' : Uuid} (hid : B.ids id id') :
    B.Lifecycles (.create c settings id) (.create c' settings id') :=
  ⟨hc, rfl, rfl, rfl, hid, rfl⟩

theorem schedulers_create {c c' : Configuration} (hc : B.configs c c') (plan : Plan) :
    B.Schedulers (.create c plan) (.create c' plan) :=
  ⟨hc, rfl, rfl, rfl, rfl, rfl, rfl, rfl⟩

theorem programs_openOver {c c' : Configuration} (hc : B.configs c c') (settings : LifecycleSettings)
    (fresh : Uuid) : B.Programs B.Handles (Lifecycle.openOver c settings fresh)
      (Lifecycle.openOver c' settings fresh) := by
  refine (programs_loadOrCreate fresh).bind fun x x' hx => ?_
  cases hx with
  | error e drew => exact .done (.error _ drew)
  | ok hid drew =>
    refine (programs_rehydrate settings.queueConfig).bind fun y y' hy => ?_
    cases hy with
    | error e => exact .done (.error _ drew)
    | panic => exact .done (.panic drew)
    | ok hq =>
      simp only [B.configs_applicationId hc, hq.report]
      exact .tell (.same _) (.done (.ok (lifecycles_create hc settings hid) hq drew))

structure Doors (B : Bond) (o o' : Opening) : Prop where
  config : B.configs o.config o'.config
  settings : o'.settings = o.settings
  fresh : o'.fresh = o.fresh
  handle : o'.handle = o.handle

theorem programs_opening {o o' : Opening} (h : B.Doors o o') :
    B.Programs (Option.Rel B.Clients) o.program o'.program := by
  unfold Opening.program
  rw [h.settings, h.fresh, h.handle]
  split
  · refine (programs_openOver h.config o.settings o.fresh).bind fun x x' hx => ?_
    cases hx with
    | error _ _ | panic _ => exact .done .none
    | ok hl hq drew =>
      exact .done (.some ⟨hl, ⟨schedulers_create h.config _, hq⟩, .nil, .nil⟩)
  · refine (programs_rehydrate o.settings.queueConfig).bind fun x x' hx => ?_
    cases hx with
    | error _ | panic => exact .done .none
    | ok hq => exact .done (.some ⟨lifecycles_create h.config _ (B.ids_refl _),
        ⟨schedulers_create h.config _, hq⟩, .nil, .nil⟩)

/-! ## Moments -/

inductive Deeds (B : Bond) : Deed → Deed → Prop where
  | act (a : Client.Action) : B.Deeds (.act a) (.act a)
  | opening {o o' : Opening} (h : B.Doors o o') : B.Deeds (.opening o) (.opening o')
  | ending : B.Deeds .ending .ending

structure Worlds (B : Bond) (w w' : World) : Prop where
  content : B.Contents w.content w'.content
  client : Option.Rel B.Clients w.client w'.client

structure Results (B : Bond) (x x' : Client.Reply × Option Client) : Prop where
  reply : Option.Rel B.Responses x.1 x'.1
  client : Option.Rel B.Clients x.2 x'.2

/-- The same is done at both moments, the stores decide the same, and both processes live on or neither. -/
structure Parallel (B : Bond) (t t' : Moment) : Prop where
  deed : B.Deeds t.deed t'.deed
  fates : Concur t.result.isSome (callFates t.trace) (callFates t'.trace)
  ends : t.result.isSome = t'.result.isSome

/-- What came of it at both moments. -/
structure Moments (B : Bond) (t t' : Moment) : Prop where
  before : B.Worlds t.before t'.before
  result : Option.Rel B.Results t.result t'.result
  content : B.Contents t.content t'.content
  sights : t.result.isSome → List.Forall₂ B.Sights (unlogged t.trace) (unlogged t'.trace)

theorem Moments.after {t t' : Moment} (h : B.Moments t t') : B.Worlds t.after t'.after := by
  refine ⟨h.content, ?_⟩
  have hresult := h.result
  unfold Moment.after
  generalize t.result = x, t'.result = x' at hresult
  cases hresult with
  | none => exact .none
  | some hx => exact hx.client

/-- Of what is assembled at the moment bonded clients make pings alike. -/
def AssemblesAt (B : Bond) (t : Moment) : Prop :=
  ∀ c c' a, t.before.client = some c → t.deed = .act a → B.Clients c c' → B.Assembles c c' a

theorem programs_world {w w' : World} (h : B.Worlds w w') {d d' : Deed} (hd : B.Deeds d d')
    (hfits : ∀ c a, w.client = some c → d = .act a → ∀ x ∈ c.asks a, x.2.Fits)
    (hmakes : ∀ c c' a, w.client = some c → d = .act a → B.Clients c c' → B.Assembles c c' a) :
    B.Programs B.Results (World.program w.client d) (World.program w'.client d') := by
  have hclient := h.client
  generalize w.client = x, w'.client = x' at *
  cases hd with
  | ending => exact .done ⟨.none, .none⟩
  | opening ho =>
    cases hclient with
    | some hc => exact .done ⟨.none, .some hc⟩
    | none => exact (programs_opening ho).bind fun _ _ hx => .done ⟨.none, hx⟩
  | act a =>
    cases hclient with
    | none => exact .done ⟨.none, .none⟩
    | some hc =>
      exact (programs_perform hc (hfits _ a rfl rfl) (hmakes _ _ a rfl rfl hc)).bind
        fun _ _ hx => .done ⟨hx.reply, .some hx.client⟩

theorem programs_moment {t : Moment} {w' : World} {d' : Deed} (h : B.Worlds t.before w')
    (hd : B.Deeds t.deed d') (ht : t.Happens) (hmakes : B.AssemblesAt t) :
    B.Programs B.Results (World.program t.before.client t.deed) (World.program w'.client d') := by
  exact programs_world h hd
    (fun c a hc ha x hx => ht.fits x.2 (Moment.request_of_asks hc ha hx)) hmakes

/-- **One moment keeps processes alike.** -/
theorem Parallel.moments {t t' : Moment} (hp : B.Parallel t t') (h : B.Worlds t.before t'.before)
    (ht : t.Happens) (ht' : t'.Happens) (hmakes : B.AssemblesAt t) : B.Moments t t' := by
  obtain ⟨-, hcontents, hresults, hsights⟩ :=
    (programs_moment h hp.deed ht hmakes).follows h.content ht.follows ht'.follows hp.fates hp.ends
  exact ⟨h, hresults, hcontents, hsights⟩

/-- What can happen in the one world can happen in the other. -/
theorem exists_parallel {t : Moment} {w' : World} {d' : Deed} (h : B.Worlds t.before w')
    (hd : B.Deeds t.deed d') (ht : t.Happens) (hmakes : B.AssemblesAt t) :
    ∃ t' : Moment, t'.before = w' ∧ t'.deed = d' ∧ t'.Happens ∧ B.Parallel t t' := by
  obtain ⟨tr', out', m₁', hf', hfates, hends⟩ :=
    (programs_moment h hd ht hmakes).exists_follows h.content ht.follows
  refine ⟨⟨w', d', tr', out', m₁'⟩, rfl, rfl, ⟨hf', fun r hr => ?_⟩, ⟨hd, hfates ▸ .refl _ _, hends⟩⟩
  obtain ⟨c', a, x, hc', rfl, hx, rfl⟩ := Moment.of_request hr
  generalize hdeed : t.deed = d at hd
  cases hd with
  | act a =>
    have hclient := h.client
    rw [hc'] at hclient
    generalize hbefore : t.before.client = c at hclient
    cases hclient with
    | @some c _ hc =>
      have hfits (y : Bool × Queue.Request) (hy : y ∈ c.asks a) : y.2.Fits :=
        ht.fits y.2 (Moment.request_of_asks hbefore hdeed hy)
      have hasks := rel_asks hc a hfits
      rw [hx] at hasks
      generalize hy : c.asks a = y at hasks
      cases hasks with
      | some hinquiry => exact hinquiry.request.fits (hfits _ hy)

/-! ## Sagas -/

inductive Episodes (B : Bond) : Episode → Episode → Prop where
  | moment {t t' : Moment} (h : B.Parallel t t') : B.Episodes (.moment t) (.moment t')
  | timeout (w w' : World) (i : Nat) : B.Episodes (.timeout w i) (.timeout w' i)

theorem Clients.expire {c c' : Client} (h : B.Clients c c') (i : Nat) :
    B.Clients (c.expire i) (c'.expire i) := by
  have hrun := rel_getElem? h.runs i
  simp only [Client.expire, h.desk.scheduler.plan]
  generalize c.runs[i]? = x, c'.runs[i]? = x' at hrun
  cases hrun with
  | none => exact h
  | some hx =>
    cases hx with
    | uploading hp s => exact { h with
        desk := ⟨h.desk.scheduler.mark .timeout, h.desk.queue⟩
        runs := forall₂_set h.runs i (.settling hp _ s) }
    | _ => exact h

/-- Episodes that have come out alike. -/
inductive Alike (B : Bond) : Episode → Episode → Prop where
  | moment {t t' : Moment} (hp : B.Parallel t t') (h : B.Moments t t') :
      B.Alike (.moment t) (.moment t')
  | timeout {w w' : World} (h : B.Worlds w w') (i : Nat) : B.Alike (.timeout w i) (.timeout w' i)

theorem Alike.after {e e' : Episode} (h : B.Alike e e') : B.Worlds e.after e'.after := by
  cases h with
  | moment _ h => exact h.after
  | @timeout w w' h i =>
    refine ⟨h.content, ?_⟩
    have hclient := h.client
    simp only [Episode.after]
    generalize w.client = x, w'.client = x' at hclient
    cases hclient with
    | none => exact .none
    | some hc => exact .some (hc.expire i)

/-- An episode in worlds that are alike. -/
theorem Episodes.alike {e e' : Episode} (he : B.Episodes e e') (h : B.Worlds e.before e'.before)
    (hhappens : e.Happens) (hhappens' : e'.Happens) (hmakes : ∀ t, e = .moment t → B.AssemblesAt t) :
    B.Alike e e' := by
  cases he with
  | moment hp => exact .moment hp (hp.moments h hhappens hhappens' (hmakes _ rfl))
  | timeout w w' i => exact .timeout h i

/-- **Parallel sagas stay alike**, in each episode and in what it leaves. -/
theorem alike {m m' : Content} (hm : B.Contents m m') {h h' : List Episode} {w w' : World}
    (hh : Saga ⟨m, none⟩ h w) (hh' : Saga ⟨m', none⟩ h' w') (hp : List.Forall₂ B.Episodes h h')
    (hmakes : ∀ t, .moment t ∈ h → B.AssemblesAt t) : List.Forall₂ B.Alike h h' ∧ B.Worlds w w' := by
  induction hp generalizing w w' with
  | nil =>
    cases hh
    cases hh'
    exact ⟨.nil, hm, .none⟩
  | cons he _ ih =>
    cases hh with
    | next hh hhappens =>
      cases hh' with
      | next hh' hhappens' =>
        obtain ⟨halike, hbefore⟩ := ih hh hh' fun t ht => hmakes t (List.mem_cons_of_mem _ ht)
        have hlast := he.alike hbefore hhappens hhappens' fun t ht => hmakes t (ht ▸ List.mem_cons_self)
        exact ⟨.cons hlast halike, hlast.after⟩

inductive Tasks (B : Bond) : Episode.Task → Episode.Task → Prop where
  | deed {d d' : Deed} (h : B.Deeds d d') : B.Tasks (.deed d) (.deed d')
  | timeout (i : Nat) : B.Tasks (.timeout i) (.timeout i)

/-- **To every saga there are parallel ones**, over every store that is alike and with all configurations
that are bonded. -/
theorem exists_saga {m m' : Content} (hm : B.Contents m m') {h : List Episode} {w : World}
    (hh : Saga ⟨m, none⟩ h w) (hmakes : ∀ t, .moment t ∈ h → B.AssemblesAt t)
    {tasks : List Episode.Task} (htasks : List.Forall₂ B.Tasks (h.map Episode.task) tasks) :
    ∃ h' w', Saga ⟨m', none⟩ h' w' ∧ h'.map Episode.task = tasks ∧ List.Forall₂ B.Episodes h h' := by
  induction hh generalizing tasks with
  | start =>
    cases htasks
    exact ⟨[], _, .start, rfl, .nil⟩
  | @next h e hh he ih =>
    cases htasks with
    | cons htask htasks =>
      have hearlier : ∀ t, .moment t ∈ h → B.AssemblesAt t :=
        fun t ht => hmakes t (List.mem_cons_of_mem _ ht)
      obtain ⟨h', w', hh', rfl, hp⟩ := ih hearlier htasks
      obtain ⟨-, hworlds⟩ := alike hm hh hh' hp hearlier
      cases e with
      | timeout w i =>
        cases htask
        exact ⟨.timeout w' i :: h', _, .next hh' trivial, rfl, .cons (.timeout w w' i) hp⟩
      | moment t =>
        cases htask with
        | deed hd =>
          obtain ⟨t', rfl, rfl, ht', hparallel⟩ :=
            exists_parallel hworlds hd he (hmakes t List.mem_cons_self)
          exact ⟨.moment t' :: h', _, .next hh' ht', rfl, .cons (.moment hparallel) hp⟩

end Bond
end PingDelivery
