import Mathlib.Algebra.GroupWithZero.Nat
import PingDelivery.Proofs.Client.Steps

/-! # Keys that are no pings

Pings lie under keys that are ids, the client id under a key that is none, and others may keep what
they like under any other. A `Confined` program calls the store under certain keys only: whatever the
queue does under those of pings, the opening of a handle under the client id's as well. So what lies
under all other keys is left alone, and the client id, which only openings of a handle touch, is
replaced once at most. `Identifies` says what a stretch of the store's life does to it; a `Chronicle` is
such a life, through the moments of any number of processes and what others do to the store in between.
-/

namespace PingDelivery
open Store Upload

/-! ## Programs that keep to certain keys -/

/-- Whatever happens, the program calls the store under these keys only. -/
inductive Confined {α : Type} (K : String → Prop) : Program α → Prop where
  | done (a : α) : Confined K (.done a)
  | tell {n : Notice} {p : Program α} (h : Confined K p) : Confined K (.tell n p)
  | call {c : Call} {next : Result c → Program α} (hc : ∀ k ∈ c.key?, K k)
      (h : ∀ r, Confined K (next r)) : Confined K (.call c next)

/-- The calls that can be seen are under these keys. -/
def CallsWithin (K : String → Prop) (tr : List Observed) : Prop :=
  ∀ c r, .called c r ∈ tr → ∀ k ∈ c.key?, K k

namespace Confined
variable {α β : Type} {K : String → Prop} {p : Program α}

theorem bind {f : α → Program β} (h : Confined K p) (hf : ∀ a, Confined K (f a)) :
    Confined K (p.bind f) := by
  induction h with
  | done a => exact hf a
  | tell _ ih => exact .tell ih
  | call hc _ ih => exact .call hc ih

theorem told {n : Option Notice} (h : Confined K p) : Confined K (Queue.told n p) := by
  cases n with
  | none => exact h
  | some n => exact .tell h

theorem of_quiet {P : α → Prop} (h : Quiet P p) : Confined K p := by
  induction h with
  | done _ => exact .done _
  | tell _ _ ih => exact .tell ih

/-- What such a program does can be seen, and what lies under other keys stays. -/
theorem follows (h : Confined K p) {m m' : Content} {tr : List Observed} {out : Option α}
    (hf : Follows p m tr out m') : CallsWithin K tr ∧ ∀ k, ¬ K k → m' k = m k := by
  have hnone : CallsWithin K [] := fun _ _ h => absurd h List.not_mem_nil
  induction h generalizing m tr with
  | done a =>
    obtain ⟨rfl, rfl, -⟩ := hf.of_done
    exact ⟨hnone, fun _ _ => rfl⟩
  | tell _ ih =>
    rcases hf.of_tell with ⟨rfl, rfl, -⟩ | ⟨tr', rfl, hrest⟩
    · exact ⟨hnone, fun _ _ => rfl⟩
    · obtain ⟨htr, hm⟩ := ih hrest
      exact ⟨fun c r hc => htr c r (by simpa using hc), hm⟩
  | @call c next hc _ ih =>
    cases hf with
    | cut => exact ⟨hnone, fun _ _ => rfl⟩
    | @call _ _ r _ m₁ _ _ _ hs hrest =>
      obtain ⟨htr, hm⟩ := ih r hrest
      have hserved {k : String} (hk : ¬ K k) : m₁ k = m k := by
        cases hs with
        | failed e => rfl
        | answered a _ => exact Call.effect_of_ne fun hmem => hk (hc k hmem)
      refine ⟨fun c' r' hmem => ?_, fun k hk => (hm k hk).trans (hserved hk)⟩
      rcases List.mem_cons.1 hmem with heq | hmem
      · cases heq
        exact hc
      · exact htr c' r' hmem

end Confined

/-! ## The keys of each program -/

/-- The key reads as an id. -/
def PingKey (k : String) : Prop := (Uuid.parse? k).isSome = true

theorem pingKey_key (id : Uuid) : PingKey (Record.key id) := Record.isPingKey_key id

theorem not_pingKey_clientId : ¬ PingKey ClientId.key :=
  fun h => Bool.false_ne_true (isPingKey_clientId.symm.trans h)

theorem pingKey_of_change {q q' : Queue} {r : Queue.Request} {c : Call} {reply : Queue.Reply}
    (h : Queue.Change q r c q' reply) : ∀ k ∈ c.key?, PingKey k := by
  intro k hk
  cases h <;> cases hk <;> exact pingKey_key _

theorem confined_settle (q : Queue) (r : Queue.Request) :
    Confined PingKey (q.settle (q.decide r)) := by
  cases hd : q.decide r with
  | refuse e => exact .done _
  | answer reply => exact .done _
  | write c q' reply notice =>
    refine .call (pingKey_of_change (Queue.change_of_decide hd).1) fun x => ?_
    cases x with
    | error e => exact .told (.done _)
    | ok a => exact .told (.done _)

theorem confined_attend (q : Queue) (passed : Bool) (r : Queue.Request) :
    Confined PingKey (q.attend passed r) := by
  unfold Queue.attend Queue.perform
  split
  · exact confined_settle q r
  · split
    · exact .done _
    · exact confined_settle q r

theorem confined_load (keys : List String) (found : List Ping) (corrupt : Nat) :
    Confined PingKey (Queue.load keys found corrupt) := by
  induction keys generalizing found corrupt with
  | nil => exact .done _
  | cons k keys ih =>
    rw [Queue.load]
    split
    · rename_i hk
      have hkey {c : Call} (hc : c.key? = some k) : ∀ k' ∈ c.key?, PingKey k' := by
        intro k' hk'
        cases hc.symm.trans hk'
        exact hk
      refine .call (hkey rfl) fun r => ?_
      obtain e | b := r
      · exact .done _
      · cases b with
        | none => exact ih _ _
        | some b =>
          simp only
          split
          · exact ih _ _
          · exact .done _
          · refine .tell (.call (hkey rfl) fun r => ?_)
            cases r with
            | error e => exact .done _
            | ok _ => exact ih _ _
    · exact ih _ _

theorem confined_trim (c : Queue.Config) (l : List Ping) (dropped : Nat) :
    Confined PingKey (Queue.trim c l dropped) := by
  induction l generalizing dropped with
  | nil => exact .done _
  | cons p l ih =>
    rw [Queue.trim]
    split
    · exact .done _
    · refine .call (fun k hk => ?_) fun r => ?_
      · cases hk
        exact pingKey_key p.id
      · cases r with
        | error e => exact .done _
        | ok _ => exact ih _

theorem confined_rehydrate (c : Queue.Config) : Confined PingKey (Queue.rehydrate c) := by
  refine .call (fun k hk => by cases hk) fun r => ?_
  cases r with
  | error e => exact .done _
  | ok keys =>
    refine (confined_load keys [] 0).bind fun x => ?_
    cases x with
    | error _ | panic => exact .done _
    | ok x =>
      refine (confined_trim c (Queue.ordered x.1) 0).bind fun y => ?_
      cases y with
      | error e => exact .done _
      | ok y => exact .told (.tell (.done _))

theorem confined_write (id : Uuid) : Confined (· = ClientId.key) (ClientId.write id) := by
  refine .call (fun k hk => by cases hk; rfl) fun r => ?_
  cases r with
  | error e => exact .done _
  | ok _ => exact .tell (.done _)

theorem confined_loadOrCreate (fresh : Uuid) :
    Confined (· = ClientId.key) (ClientId.loadOrCreate fresh) := by
  have hwrite : Confined (· = ClientId.key)
      ((ClientId.write fresh).bind fun r => .done (r, true)) :=
    (confined_write fresh).bind fun r => .done _
  refine .call (fun k hk => by cases hk; rfl) fun r => ?_
  match r with
  | .error e => exact .done _
  | .ok none => exact hwrite
  | .ok (some b) =>
    simp only
    split
    · exact .done _
    · exact .tell hwrite

theorem Client.confined_perform (c : Client) (a : Client.Action) :
    Confined PingKey (c.perform a) := by
  unfold Client.perform
  split
  · refine (confined_attend _ _ _).bind fun x => ?_
    exact (Confined.of_quiet (Client.quiet_resume _ x.1 a)).bind fun _ => .done _
  · exact (Confined.of_quiet (Client.quiet_act c a)).bind fun _ => .done _

/-! ## The client id -/

/-- The id that the store holds, if what lies under the client id's key reads as one. -/
def ClientId.stored? (m : Content) : Option Uuid := (m ClientId.key).bind ClientId.ofBytes?

/-- Something has been put under the client id's key. -/
def Store.Observed.replaces : Observed → Bool
  | .called (.put k _) (.ok _) => k = ClientId.key
  | _ => false

def replacements (tr : List Observed) : Nat := tr.countP (·.replaces)

theorem replacements_append (tr tr' : List Observed) :
    replacements (tr ++ tr') = replacements tr + replacements tr' := List.countP_append

theorem replacements_told (n : Notice) (tr : List Observed) :
    replacements (.told n :: tr) = replacements tr := rfl

theorem replacements_get (k : String) (r : Result (.get k)) (tr : List Observed) :
    replacements (.called (.get k) r :: tr) = replacements tr := rfl

theorem replacements_of_within {tr : List Observed} (h : CallsWithin PingKey tr) :
    replacements tr = 0 := by
  refine List.countP_eq_zero.2 fun x hx hr => ?_
  unfold Observed.replaces at hr
  split at hr
  · rename_i k b a
    have hkey := h _ _ hx k rfl
    rw [of_decide_eq_true hr] at hkey
    exact not_pingKey_clientId hkey
  · cases hr

/-- What can become of the client id on the way from one content to another: how often it is replaced,
and which ids are reported. -/
inductive Identifies (m m' : Content) : Nat → List Uuid → Prop where
  | kept {ids : List Uuid} (same : m' ClientId.key = m ClientId.key)
      (hids : ∀ id ∈ ids, ClientId.stored? m = some id) : Identifies m m' 0 ids
  | replaced {ids : List Uuid} {id : Uuid} (unreadable : ClientId.stored? m = none)
      (now : m' ClientId.key = some (Bytes.ofText id.text)) (hids : ∀ id' ∈ ids, id' = id) :
      Identifies m m' 1 ids

theorem ClientId.stored?_congr {m m' : Content} (h : m' ClientId.key = m ClientId.key) :
    ClientId.stored? m' = ClientId.stored? m := by rw [stored?, h, stored?]

theorem ClientId.stored?_text {m : Content} {id : Uuid}
    (h : m ClientId.key = some (Bytes.ofText id.text)) : ClientId.stored? m = some id := by
  rw [stored?, h]
  exact ofBytes?_text id

namespace Identifies
variable {m m₁ m₂ : Content} {n n' : Nat} {ids ids' : List Uuid}

theorem silent (h : m₁ ClientId.key = m ClientId.key) : Identifies m m₁ 0 [] :=
  .kept h fun _ hid => absurd hid List.not_mem_nil

/-- Fewer may be reported. -/
theorem mono (h : Identifies m m₁ n ids) (hids : ids' ⊆ ids) : Identifies m m₁ n ids' := by
  cases h with
  | kept same h => exact .kept same fun id hid => h id (hids hid)
  | replaced unreadable now h => exact .replaced unreadable now fun id hid => h id (hids hid)

/-- One stretch after another. Whatever the first leaves can be read as the id that it reports, so the
second replaces nothing that the first has put there. -/
theorem trans (h : Identifies m m₁ n ids) (h' : Identifies m₁ m₂ n' ids') :
    Identifies m m₂ (n' + n) (ids' ++ ids) := by
  cases h with
  | kept same hids =>
    have hsame := ClientId.stored?_congr same
    cases h' with
    | kept same' hids' =>
      refine .kept (same'.trans same) fun id hid => ?_
      exact (List.mem_append.1 hid).elim (fun hid => hsame ▸ hids' id hid) (hids id)
    | replaced unreadable now hids' =>
      have hnone := hsame.symm.trans unreadable
      refine .replaced hnone now fun id hid => ?_
      exact (List.mem_append.1 hid).elim (hids' id) fun hid => by cases hnone.symm.trans (hids id hid)
  | @replaced ids id unreadable now hids =>
    have hstored := ClientId.stored?_text now
    cases h' with
    | kept same' hids' =>
      refine .replaced unreadable (same'.trans now) fun id' hid => ?_
      exact (List.mem_append.1 hid).elim
        (fun hid => Option.some.inj ((hids' id' hid).symm.trans hstored)) (hids id')
    | replaced unreadable' now' hids' => cases unreadable'.symm.trans hstored

/-- What is reported is held from then on. -/
theorem stored_of_reported {id : Uuid} (h : Identifies m m₁ n ids) (hid : id ∈ ids) :
    ClientId.stored? m₁ = some id := by
  cases h with
  | kept same hids => exact (ClientId.stored?_congr same).trans (hids id hid)
  | replaced unreadable now hids =>
    cases hids id hid
    exact ClientId.stored?_text now

/-- An id that can be read is not replaced, and no other is reported. -/
theorem of_stored {id : Uuid} (h : Identifies m m₁ n ids) (hm : ClientId.stored? m = some id) :
    n = 0 ∧ m₁ ClientId.key = m ClientId.key ∧ ∀ id' ∈ ids, id' = id := by
  cases h with
  | kept same hids => exact ⟨rfl, same, fun id' hid => Option.some.inj ((hids id' hid).symm.trans hm)⟩
  | replaced unreadable now hids => cases unreadable.symm.trans hm

end Identifies

/-- A store whose id cannot be read is given the fresh one, if it takes it. -/
theorem identifies_write {fresh : Uuid} {m m' : Content} {tr : List Observed}
    {out : Option (Except Error Uuid)} (hm : ClientId.stored? m = none)
    (h : Follows (ClientId.write fresh) m tr out m') :
    Identifies m m' (replacements tr) (out.bind Except.toOption).toList := by
  rcases h.of_call with ⟨rfl, rfl, rfl⟩ | ⟨e, tr', rfl, hdone⟩ | ⟨a, tr', rfl, -, htold⟩
  · exact .silent rfl
  · obtain ⟨rfl, rfl, rfl | rfl⟩ := hdone.of_done <;> exact .silent rfl
  · have hnow : (Call.put ClientId.key (Bytes.ofText fresh.text)).effect m ClientId.key =
        some (Bytes.ofText fresh.text) := Function.update_self ClientId.key _ m
    rcases htold.of_tell with ⟨rfl, rfl, rfl⟩ | ⟨tr'', rfl, hdone⟩
    · exact .replaced hm hnow fun _ hid => absurd hid List.not_mem_nil
    · obtain ⟨rfl, rfl, rfl | rfl⟩ := hdone.of_done
      · exact .replaced hm hnow fun _ hid => absurd hid List.not_mem_nil
      · exact .replaced hm hnow fun id hid => List.mem_singleton.1 hid

theorem identifies_loadOrCreate {fresh : Uuid} {m m' : Content} {tr : List Observed}
    {out : Option (Except Error Uuid × Bool)}
    (h : Follows (ClientId.loadOrCreate fresh) m tr out m') :
    Identifies m m' (replacements tr) (out.bind (·.1.toOption)).toList := by
  have hwrite {m' : Content} {tr : List Observed} {out : Option (Except Error Uuid × Bool)}
      (hm : ClientId.stored? m = none)
      (h : Follows ((ClientId.write fresh).bind fun r => .done (r, true)) m tr out m') :
      Identifies m m' (replacements tr) (out.bind (·.1.toOption)).toList := by
    obtain ⟨out', hw, rfl⟩ := h.of_bind_done
    cases out' <;> exact identifies_write hm hw
  rcases h.of_call with ⟨rfl, rfl, rfl⟩ | ⟨e, tr', rfl, hdone⟩ | ⟨a, tr', rfl, ha, hrest⟩
  · exact .silent rfl
  · obtain ⟨rfl, rfl, rfl | rfl⟩ := hdone.of_done <;> exact .silent rfl
  · have hget : a = m ClientId.key := ha
    cases a with
    | none =>
      rw [replacements_get]
      exact hwrite (by rw [ClientId.stored?, ← hget]; rfl) hrest
    | some b =>
      have hstored : ClientId.stored? m = ClientId.ofBytes? b := by
        rw [ClientId.stored?, ← hget]
        rfl
      simp only at hrest
      split at hrest
      · rename_i id hb
        obtain ⟨rfl, rfl, rfl | rfl⟩ := hrest.of_done
        · exact .silent rfl
        · exact .kept rfl fun id' hid => by rw [List.mem_singleton.1 hid, hstored, hb]
      · rename_i hb
        rcases hrest.of_tell with ⟨rfl, rfl, rfl⟩ | ⟨tr'', rfl, htold⟩
        · exact .silent rfl
        · rw [replacements_get, replacements_told]
          exact hwrite (hstored.trans hb) htold

/-- What the opening of a handle does under the client id's key, and after it under those of pings. -/
structure Apart (m : Content) (tr : List Observed) (m' : Content) (ids : List Uuid) : Prop where
  calls : ∃ tr₁ tr₂, tr = tr₁ ++ tr₂ ∧ CallsWithin (· = ClientId.key) tr₁ ∧ CallsWithin PingKey tr₂
  kept : ∀ k, ¬ PingKey k → k ≠ ClientId.key → m' k = m k
  identifies : Identifies m m' (replacements tr) ids

theorem apart_openOver {config : Configuration} {settings : LifecycleSettings} {fresh : Uuid}
    {m m' : Content} {tr : List Observed}
    {out : Option (Ended LifecycleError (Lifecycle × Queue) × Bool)}
    (h : Follows (Lifecycle.openOver config settings fresh) m tr out m') :
    Apart m tr m' (out.bind fun x => x.1.toOption.map (·.1.clientId)).toList := by
  rcases h.of_bind with ⟨rfl, hid⟩ | ⟨⟨r, drew⟩, tr₁, tr₂, m₁, hid, hrest, rfl⟩
  · obtain ⟨htr, hm⟩ := (confined_loadOrCreate fresh).follows hid
    have hnone : CallsWithin PingKey [] := fun _ _ hc => absurd hc List.not_mem_nil
    exact ⟨⟨tr, [], (List.append_nil _).symm, htr, hnone⟩, fun k _ => hm k, identifies_loadOrCreate hid⟩
  · obtain ⟨htr₁, hm₁⟩ := (confined_loadOrCreate fresh).follows hid
    obtain ⟨htr₂, hm₂⟩ : CallsWithin PingKey tr₂ ∧ ∀ k, ¬ PingKey k → m' k = m₁ k := by
      refine Confined.follows ?_ hrest
      cases r with
      | error e => exact .done _
      | ok id =>
        refine (confined_rehydrate settings.queueConfig).bind fun r => ?_
        cases r with
        | error _ | panic => exact .done _
        | ok q => exact .tell (.done _)
    refine ⟨⟨tr₁, tr₂, rfl, htr₁, htr₂⟩, fun k hk hid => (hm₂ k hk).trans (hm₁ k hid), ?_⟩
    have hidentifies := (identifies_loadOrCreate hid).trans (.silent (hm₂ _ not_pingKey_clientId))
    rw [replacements_append, replacements_of_within htr₂, Nat.add_comm]
    refine hidentifies.mono ?_
    -- the id that is reported is the one that was found or made
    cases r with
    | error e => obtain ⟨-, -, rfl | rfl⟩ := hrest.of_done <;> exact List.nil_subset _
    | ok id =>
      rcases hrest.of_bind with ⟨rfl, -⟩ | ⟨r, tr₃, tr₄, m₂, -, hdone, rfl⟩
      · exact List.nil_subset _
      · cases r with
        | error _ | panic => obtain ⟨-, -, rfl | rfl⟩ := hdone.of_done <;> exact List.nil_subset _
        | ok q =>
          rcases hdone.of_tell with ⟨-, -, rfl⟩ | ⟨tr₅, -, hdone⟩
          · exact List.nil_subset _
          · obtain ⟨-, -, rfl | rfl⟩ := hdone.of_done
            · exact List.nil_subset _
            · exact List.Subset.refl _

/-! ## Moments -/

namespace Moment

def opensHandle (t : Moment) : Bool :=
  match t.before.client, t.deed with
  | none, .opening o => o.handle
  | _, _ => false

/-- The client id of the handle that was opened. -/
def reported? (t : Moment) : Option Uuid :=
  if t.opensHandle then t.after.client.map (·.lifecycle.clientId) else none

/-- What was done can have come to this. -/
def Followed (t : Moment) : Prop :=
  Follows (World.program t.before.client t.deed) t.before.content t.trace t.result t.content

variable {t : Moment}

/-- Whatever is not the opening of a handle keeps to the keys of pings. -/
theorem Followed.confined (h : t.Followed) (hno : t.opensHandle = false) :
    CallsWithin PingKey t.trace ∧ ∀ k, ¬ PingKey k → t.content k = t.before.content k := by
  refine Confined.follows ?_ h
  unfold opensHandle at hno
  cases hd : t.deed with
  | ending => exact .done _
  | act a =>
    cases t.before.client with
    | none => exact .done _
    | some c => exact (c.confined_perform a).bind fun _ => .done _
  | opening o =>
    cases hc : t.before.client with
    | some c => exact .done _
    | none =>
      rw [hc, hd] at hno
      refine Confined.bind ?_ fun _ => .done _
      rw [Opening.program, if_neg (Bool.eq_false_iff.1 hno)]
      refine (confined_rehydrate _).bind fun r => ?_
      cases r with
      | error _ | panic => exact .done _
      | ok q => exact .done _

theorem Followed.apart (h : t.Followed) (hopens : t.opensHandle = true) :
    Apart t.before.content t.trace t.content t.reported?.toList := by
  obtain ⟨o, hc, hd, ho⟩ : ∃ o, t.before.client = none ∧ t.deed = .opening o ∧ o.handle = true := by
    unfold opensHandle at hopens
    split at hopens
    · rename_i o hc hd
      exact ⟨o, hc, hd, hopens⟩
    · cases hopens
  rw [Followed, hc, hd] at h
  obtain ⟨out, hprogram, hresult⟩ := h.of_bind_done
  rw [Opening.program, if_pos ho] at hprogram
  obtain ⟨out', hopen, rfl⟩ := hprogram.of_bind_ends o.withHandle (by rintro ⟨_ | _ | _, _⟩ <;> rfl)
  have hreported : t.reported? = out'.bind fun x => x.1.toOption.map (·.1.clientId) := by
    rw [reported?, if_pos hopens, after, hresult]
    rcases out' with _ | ⟨_ | _ | _, _⟩ <;> rfl
  rw [hreported]
  exact apart_openOver hopen

theorem Followed.identifies (h : t.Followed) :
    Identifies t.before.content t.content (replacements t.trace) t.reported?.toList := by
  cases hopens : t.opensHandle with
  | true => exact (h.apart hopens).identifies
  | false =>
    obtain ⟨htr, hm⟩ := h.confined hopens
    rw [replacements_of_within htr, reported?, hopens]
    exact .silent (hm _ not_pingKey_clientId)

theorem Followed.content_eq (h : t.Followed) {k : String} (hk : ¬ PingKey k)
    (hid : k ≠ ClientId.key) : t.content k = t.before.content k := by
  cases hopens : t.opensHandle with
  | true => exact (h.apart hopens).kept k hk hid
  | false => exact (h.confined hopens).2 k hk

end Moment

/-! ## What becomes of a store -/

/-- What happens to a store: something that a process does, or something done from outside. -/
inductive Affair where
  | moment (t : Moment)
  | outside (before after : Content)

namespace Affair

def before : Affair → Content
  | moment t => t.before.content
  | outside m _ => m

def after : Affair → Content
  | moment t => t.content
  | outside _ m => m

def Happens : Affair → Prop
  | moment t => t.Followed
  | outside _ _ => True

def replacements : Affair → Nat
  | moment t => PingDelivery.replacements t.trace
  | outside _ _ => 0

def reports : Affair → List Uuid
  | moment t => t.reported?.toList
  | outside _ _ => []

/-- Nobody outside touches what lies under the key. -/
def Spares (k : String) : Affair → Prop
  | moment _ => True
  | outside m m' => m' k = m k

variable {a : Affair}

theorem Happens.identifies (h : a.Happens) (hspares : a.Spares ClientId.key) :
    Identifies a.before a.after a.replacements a.reports := by
  cases a with
  | moment t => exact Moment.Followed.identifies h
  | outside m m' => exact .silent hspares

theorem Happens.after_eq (h : a.Happens) {k : String} (hk : ¬ PingKey k) (hid : k ≠ ClientId.key)
    (hspares : a.Spares k) : a.after k = a.before k := by
  cases a with
  | moment t => exact Moment.Followed.content_eq h hk hid
  | outside m m' => exact hspares

end Affair

/-- `Chronicle m₀ h m`: the affairs `h`, the latest first, led the store from `m₀` to `m`. Its processes
need not be one after another. -/
inductive Chronicle (m₀ : Content) : List Affair → Content → Prop where
  | start : Chronicle m₀ [] m₀
  | next {h : List Affair} {a : Affair} (hh : Chronicle m₀ h a.before) (ha : a.Happens) :
      Chronicle m₀ (a :: h) a.after

namespace Chronicle
variable {m₀ m : Content} {h : List Affair}

theorem of_append {h' : List Affair} (hh : Chronicle m₀ (h' ++ h) m) :
    ∃ m₁, Chronicle m₀ h m₁ ∧ Chronicle m₁ h' m := by
  induction h' generalizing m with
  | nil => exact ⟨m, hh, .start⟩
  | cons a h' ih =>
    cases hh with
    | next hh ha =>
      obtain ⟨m₁, hearlier, hlater⟩ := ih hh
      exact ⟨m₁, hearlier, hlater.next ha⟩

theorem happens (hh : Chronicle m₀ h m) : ∀ a ∈ h, a.Happens := by
  induction hh with
  | start => exact fun _ ha => absurd ha List.not_mem_nil
  | next _ ha ih => exact List.forall_mem_cons.2 ⟨ha, ih⟩

theorem identifies (hh : Chronicle m₀ h m) (hspares : ∀ a ∈ h, a.Spares ClientId.key) :
    Identifies m₀ m (h.map (·.replacements)).sum (h.flatMap (·.reports)) := by
  induction hh with
  | start => exact .silent rfl
  | next _ ha ih =>
    obtain ⟨hspare, hspares⟩ := List.forall_mem_cons.1 hspares
    exact (ih hspares).trans (ha.identifies hspare)

theorem eq_of_spares (hh : Chronicle m₀ h m) {k : String} (hk : ¬ PingKey k) (hid : k ≠ ClientId.key)
    (hspares : ∀ a ∈ h, a.Spares k) : m k = m₀ k := by
  induction hh with
  | start => rfl
  | next _ ha ih =>
    obtain ⟨hspare, hspares⟩ := List.forall_mem_cons.1 hspares
    exact (ha.after_eq hk hid hspare).trans (ih hspares)

/-- What a store's chronicle guards. -/
structure Guarded (m₀ : Content) (h : List Affair) (m : Content) : Prop where
  /-- A handle reports the client id that an earlier one has reported, unless someone outside has
  rewritten it between. -/
  stable : ∀ later t₂ between t₁ earlier,
    h = later ++ .moment t₂ :: (between ++ .moment t₁ :: earlier) →
    (∀ a ∈ between, a.Spares ClientId.key) →
    ∀ c₁ c₂, t₁.reported? = some c₁ → t₂.reported? = some c₂ → c₂ = c₁
  /-- Whatever is not the opening of a handle reads, writes and deletes under keys of pings alone. -/
  confined : ∀ t, .moment t ∈ h → t.opensHandle = false →
    CallsWithin PingKey t.trace ∧ ∀ k, ¬ PingKey k → t.content k = t.before.content k
  /-- The opening of a handle sees to the client id, then its queue to pings. -/
  apart : ∀ t, .moment t ∈ h → t.opensHandle = true →
    ∃ tr₁ tr₂, t.trace = tr₁ ++ tr₂ ∧ CallsWithin (· = ClientId.key) tr₁ ∧ CallsWithin PingKey tr₂
  /-- What others keep in the store stays as they leave it. -/
  foreign : ∀ k, ¬ PingKey k → k ≠ ClientId.key → (∀ a ∈ h, a.Spares k) → m k = m₀ k
  /-- An id that can be read is never replaced, and all handles report it. -/
  readable : ∀ id, ClientId.stored? m₀ = some id → (∀ a ∈ h, a.Spares ClientId.key) →
    (h.map (·.replacements)).sum = 0 ∧ m ClientId.key = m₀ ClientId.key ∧
      ∀ id' ∈ h.flatMap (·.reports), id' = id
  /-- What cannot be read stays until it is replaced, before any handle is opened, by the text of the id
  that all handles report. Nothing is replaced after that. -/
  unreadable : ClientId.stored? m₀ = none → (∀ a ∈ h, a.Spares ClientId.key) →
    ((h.map (·.replacements)).sum = 0 ∧ m ClientId.key = m₀ ClientId.key ∧
      h.flatMap (·.reports) = []) ∨
    ∃ id, (h.map (·.replacements)).sum = 1 ∧ m ClientId.key = some (Bytes.ofText id.text) ∧
      ∀ id' ∈ h.flatMap (·.reports), id' = id

/-- What a handle reports was reported, and has been held, since an earlier one was opened. -/
theorem reported_eq {later between earlier : List Affair} {t₁ t₂ : Moment} {c₁ c₂ : Uuid}
    (hh : Chronicle m₀ (later ++ .moment t₂ :: (between ++ .moment t₁ :: earlier)) m)
    (hspares : ∀ a ∈ between, a.Spares ClientId.key) (h₁ : t₁.reported? = some c₁)
    (h₂ : t₂.reported? = some c₂) : c₂ = c₁ := by
  obtain ⟨_, hupto, -⟩ := hh.of_append
  cases hupto with
  | next hupto ht₂ =>
    obtain ⟨_, hfirst, hbetween⟩ := hupto.of_append
    cases hfirst with
    | next _ ht₁ =>
      have hheld : ClientId.stored? t₁.content = some c₁ :=
        (Moment.Followed.identifies ht₁).stored_of_reported (Option.mem_toList.2 h₁)
      obtain ⟨-, hsame, -⟩ := (hbetween.identifies hspares).of_stored hheld
      have hstill : ClientId.stored? t₂.before.content = some c₁ :=
        (ClientId.stored?_congr hsame).trans hheld
      obtain ⟨-, -, hids⟩ := (Moment.Followed.identifies ht₂).of_stored hstill
      exact hids c₂ (Option.mem_toList.2 h₂)

end Chronicle

/-- **The client id is stable, and keys that are no pings' are left alone**, whatever is done over a store
with whatever faults, crashes and openings. -/
theorem client_id_and_foreign_keys_stay {m₀ m : Content} {h : List Affair} (hh : Chronicle m₀ h m) :
    Chronicle.Guarded m₀ h m where
  stable later t₂ between t₁ earlier heq hspares c₁ c₂ h₁ h₂ := by
    subst heq
    exact hh.reported_eq hspares h₁ h₂
  confined t ht hno := Moment.Followed.confined (hh.happens _ ht) hno
  apart t ht hopens := (Moment.Followed.apart (hh.happens _ ht) hopens).calls
  foreign k hk hid hspares := hh.eq_of_spares hk hid hspares
  readable id hid hspares := (hh.identifies hspares).of_stored hid
  unreadable hnone hspares := by
    have hall := hh.identifies hspares
    generalize (h.map (·.replacements)).sum = n at hall ⊢
    cases hall with
    | kept same hids =>
      refine .inl ⟨rfl, same, List.eq_nil_iff_forall_not_mem.2 fun id hid => ?_⟩
      cases hnone.symm.trans (hids id hid)
    | @replaced _ id _ now hids => exact .inr ⟨id, rfl, now, hids⟩

/-! ### An id that cannot be read -/

/-- A map that holds a text that is no id under the key of the client id. -/
def Memory.ofNoId : Memory := ⟨Dict.empty.insert ClientId.key (Bytes.ofText "no id"), false⟩

/-- The opening that draws the fifth id. -/
def Opening.fifth : Opening := { Opening.handled with fresh := .drawn 5 }

theorem stored?_ofNoId : ClientId.stored? Memory.ofNoId.records.get? = none := by
  have hget : Memory.ofNoId.records.get? ClientId.key = some (Bytes.ofText "no id") :=
    (Dict.get?_insert _ _ _ _).trans (if_pos rfl)
  have hparse : Uuid.parse? "no id" = none := by decide
  rw [ClientId.stored?, hget, Option.bind_some, ClientId.ofBytes?, Bytes.text?_ofText]
  exact hparse

theorem follows_loadOrCreate_ofNoId (id : Uuid) : ∃ tr drew,
    Follows (ClientId.loadOrCreate id) Memory.ofNoId.records.get? tr (some (.ok id, drew))
      (Memory.ofId id).records.get? := by
  have hput : (Call.put ClientId.key (Bytes.ofText id.text)).effect Memory.ofNoId.records.get? =
      (Memory.ofId id).records.get? := by
    funext k
    change Function.update _ _ _ k = _
    rw [get?_ofId, Function.update_apply]
    split
    · rfl
    · rename_i hk
      exact (Dict.get?_insert _ _ _ _).trans (if_neg hk)
  obtain ⟨tr, hwrite⟩ : ∃ tr, Follows (ClientId.write id) Memory.ofNoId.records.get? tr
      (some (.ok id)) (Memory.ofId id).records.get? := by
    rw [← hput]
    exact ⟨_, .call (.answered (c := .put ClientId.key _) () trivial) (.tell (.done _ _))⟩
  have hget : Memory.ofNoId.records.get? ClientId.key = some (Bytes.ofText "no id") :=
    (Dict.get?_insert _ _ _ _).trans (if_pos rfl)
  have hread : ClientId.ofBytes? (Bytes.ofText "no id") = none := by
    have h := stored?_ofNoId
    rwa [ClientId.stored?, hget, Option.bind_some] at h
  refine ⟨.called (.get ClientId.key) (.ok (some (Bytes.ofText "no id"))) ::
    .told .clientIdUnreadable :: (tr ++ []), true, ?_⟩
  refine .call (.answered (c := .get ClientId.key) _ hget.symm) ?_
  simp only [hread]
  exact .tell (hwrite.bind (.done _ _))

/-- The text is replaced when a handle is opened, and the next one, which might have drawn another id,
reports the same. -/
theorem stays_over_no_id : ∃ h m, Chronicle Memory.ofNoId.records.get? h m ∧
    h.flatMap (·.reports) = [.drawn 5, .drawn 5] ∧ Opening.handled.fresh ≠ .drawn 5 ∧
    (h.map (·.replacements)).sum = 1 ∧ m ClientId.key = some (Bytes.ofText (Uuid.drawn 5).text) := by
  obtain ⟨tr, drew, hload⟩ := follows_loadOrCreate_ofNoId (.drawn 5)
  obtain ⟨tr₁, hfirst⟩ := happens_open_of_load (o := .fifth) (.drawn 5) rfl hload
  obtain ⟨tr₂, hsecond⟩ := happens_open_ofId (.drawn 5)
  have hh := (Chronicle.start.next (a := .moment _) hfirst.follows).next (a := .moment _)
    hsecond.follows
  refine ⟨_, _, hh, rfl, by decide, ?_⟩
  rcases (client_id_and_foreign_keys_stay hh).unreadable stored?_ofNoId
    (List.forall_mem_cons.2 ⟨trivial, List.forall_mem_singleton.2 trivial⟩) with
    ⟨-, -, hnone⟩ | ⟨id, hone, hm, hids⟩
  · cases hnone
  · obtain rfl : Uuid.drawn 5 = id := hids _ List.mem_cons_self
    exact ⟨hone, hm⟩

end PingDelivery
