import PingDelivery.Proofs.Client.Logging
import PingDelivery.Proofs.Record.RoundTrip
import PingDelivery.Proofs.Uuid
import Mathlib.Data.List.Forall2

/-! # Two runs side by side

A `Bond` says what two runs may differ in: pings that stand for one another, configurations, client
ids. Programs are bonded if they make the same calls, up to such differences, and go on alike whatever
the store answers; then they stay alike when they are followed over stores that are: `Programs.follows`.
What the store decides by itself, which calls fail and in what order keys are listed, is the `Fate` of a
call, and both runs are given the same.
-/

namespace PingDelivery
open Store

/-- Nothing but payloads of one size and metadata differ. -/
structure Ping.Agrees (p p' : Ping) : Prop where
  id : p'.id = p.id
  documentType : p'.documentType = p.documentType
  createdAt : p'.createdAt = p.createdAt
  attempts : p'.attempts = p.attempts
  sequence : p'.sequence = p.sequence
  size : p'.size = p.size

structure Bond where
  pings : Ping → Ping → Prop
  configs : Configuration → Configuration → Prop
  ids : Uuid → Uuid → Prop
  /-- What may be stored as the client id. -/
  stored : Bytes → Bytes → Prop
  pings_refl : ∀ p, pings p p
  ids_refl : ∀ id, ids id id
  agree : ∀ {p p' : Ping}, pings p p' → p.Agrees p'
  pings_numbered : ∀ {p p' : Ping} (n : UInt64), pings p p' →
    pings { p with sequence := n } { p' with sequence := n }
  pings_attempted : ∀ {p p' : Ping}, pings p p' → pings p.attempted p'.attempted
  pings_settled : ∀ {p p' : Ping}, pings p p' → pings p.settled p'.settled
  pings_fits : ∀ {p p' : Ping}, pings p p' → p.Fits → p'.Fits
  configs_maxEvents : ∀ {c c' : Configuration}, configs c c' → c'.maxEvents = c.maxEvents
  configs_applicationId : ∀ {c c' : Configuration}, configs c c' → c'.applicationId = c.applicationId
  stored_ids : ∀ {b b' : Bytes}, stored b b' →
    ∃ id id', ClientId.ofBytes? b = some id ∧ ClientId.ofBytes? b' = some id' ∧ ids id id'

/-! ## Fates -/

/-- What a store decides of a call. -/
inductive Fate where
  | failed (e : Store.Error)
  | served
  | listed (keys : List String)
  deriving DecidableEq

def Fate.of : (c : Call) → Result c → Fate
  | _, .error e => .failed e
  | .list, .ok keys => .listed keys
  | .put _ _, .ok _ | .get _, .ok _ | .delete _, .ok _ => .served

def Store.Observed.fate? : Observed → Option Fate
  | .told _ => none
  | .called c r => some (.of c r)

def callFates (tr : List Observed) : List Fate := tr.filterMap Observed.fate?

/-- Two stores decide the same as long as both are asked; and of two processes that die, each dies after
as many calls as the other. -/
structure Concur (alive : Bool) (a b : List Fate) : Prop where
  common : ∃ s, a <+: s ∧ b <+: s
  stops : alive = false → a.length = b.length

namespace Concur
variable {alive : Bool} {a b : List Fate} {x y : Fate}

theorem refl (alive : Bool) (a : List Fate) : Concur alive a a :=
  ⟨⟨a, List.prefix_refl a, List.prefix_refl a⟩, fun _ => rfl⟩

theorem of_cons (h : Concur alive (x :: a) (y :: b)) : x = y ∧ Concur alive a b := by
  obtain ⟨s, ha, hb⟩ := h.common
  cases s with
  | nil => cases List.prefix_nil.1 ha
  | cons z s =>
    obtain ⟨hx, ha⟩ := List.cons_prefix_cons.1 ha
    obtain ⟨hy, hb⟩ := List.cons_prefix_cons.1 hb
    exact ⟨hx.trans hy.symm, ⟨s, ha, hb⟩, fun h' => Nat.succ.inj (h.stops h')⟩

/-- A process that has died without a call. -/
theorem eq_nil (h : Concur false [] b) : b = [] := List.eq_nil_of_length_eq_zero (h.stops rfl).symm

end Concur

@[simp] theorem callFates_called (c : Call) (r : Result c) (tr : List Observed) :
    callFates (.called c r :: tr) = .of c r :: callFates tr := rfl

/-- A program that has made no call has changed nothing. -/
theorem Store.Follows.eq_of_fateless {α : Type} {p : Program α} {m m' : Content} {tr : List Observed}
    {out : Option α} (h : Follows p m tr out m') (hf : callFates tr = []) : m' = m := by
  induction h with
  | cut | done => rfl
  | tell _ ih => exact ih hf
  | call => cases hf

namespace Bond
variable {B : Bond} {α β γ δ : Type}

/-! ## Values and contents -/

/-- Pings that stand for one another and can be written down. -/
structure Kept (B : Bond) (p p' : Ping) : Prop where
  bonded : B.pings p p'
  fits : p.Fits

theorem Kept.fits' {p p' : Ping} (h : B.Kept p p') : p'.Fits := B.pings_fits h.bonded h.fits

/-- What may stand under a key of the one store and of the other. -/
inductive Values (B : Bond) : String → Option Bytes → Option Bytes → Prop where
  | same {k : String} (x : Option Bytes) : B.Values k x x
  | records {p p' : Ping} (h : B.Kept p p') :
      B.Values (Record.key p.id) (some (Record.encode p)) (some (Record.encode p'))
  | ids {b b' : Bytes} (h : B.stored b b') : B.Values ClientId.key (some b) (some b')

def Contents (B : Bond) (m m' : Content) : Prop := ∀ k, B.Values k (m k) (m' k)

theorem Contents.update {m m' : Content} {k : String} {x x' : Option Bytes} (h : B.Contents m m')
    (hx : B.Values k x x') : B.Contents (Function.update m k x) (Function.update m' k x') := by
  intro j
  rcases eq_or_ne j k with rfl | hj
  · rwa [Function.update_self, Function.update_self]
  · rw [Function.update_of_ne hj, Function.update_of_ne hj]
    exact h j

theorem Contents.isSome_eq {m m' : Content} (h : B.Contents m m') (k : String) :
    (m' k).isSome = (m k).isSome := by
  have hk := h k
  generalize m k = x, m' k = x' at hk
  cases hk <;> rfl

/-! ## Traces -/

inductive Notices (B : Bond) : Notice → Notice → Prop where
  | same (n : Notice) : B.Notices n n
  | uploading {p p' : Ping} (h : B.pings p p') : B.Notices (.uploading p) (.uploading p')

inductive Sights (B : Bond) : Observed → Observed → Prop where
  | told {n n' : Notice} (h : B.Notices n n') : B.Sights (.told n) (.told n')
  | put {k : String} {b b' : Bytes} (hb : B.Values k (some b) (some b'))
      (r : Except Store.Error Unit) : B.Sights (.called (.put k b) r) (.called (.put k b') r)
  | read {k : String} {x x' : Option Bytes} (hx : B.Values k x x') :
      B.Sights (.called (.get k) (.ok x)) (.called (.get k) (.ok x'))
  | same (c : Call) (r : Result c) : B.Sights (.called c r) (.called c r)

theorem Sights.fate_eq {o o' : Observed} (h : B.Sights o o') : o.fate? = o'.fate? := by
  cases h with
  | put _ r => cases r <;> rfl
  | _ => rfl

theorem Notices.cons {n n' : Notice} {tr tr' : List Observed} (hn : B.Notices n n')
    (h : List.Forall₂ B.Sights (unlogged tr) (unlogged tr')) :
    List.Forall₂ B.Sights (unlogged (.told n :: tr)) (unlogged (.told n' :: tr')) := by
  cases hn with
  | same n =>
    cases hn : n.isPayload <;>
      simp only [unlogged, List.filter_cons, Observed.isPayload, hn, Bool.not_true,
        Bool.not_false, Bool.false_eq_true, if_false, if_true]
    · exact .cons (.told (.same n)) h
    · exact h
  | uploading hp => exact .cons (.told (.uploading hp)) h

/-! ## Programs -/

/-- Programs that do the same, up to what the bond allows, and end with related results. Either may
trace payloads where the other does not. -/
inductive Programs (B : Bond) (R : α → β → Prop) : Program α → Program β → Prop where
  | done {a : α} {b : β} (h : R a b) : B.Programs R (.done a) (.done b)
  | tell {n n' : Notice} {p : Program α} {p' : Program β} (hn : B.Notices n n')
      (h : B.Programs R p p') : B.Programs R (.tell n p) (.tell n' p')
  | left {x : Ping} {p : Program α} {p' : Program β} (h : B.Programs R p p') :
      B.Programs R (.tell (.payload x) p) p'
  | right {x : Ping} {p : Program α} {p' : Program β} (h : B.Programs R p p') :
      B.Programs R p (.tell (.payload x) p')
  | put {k : String} {b b' : Bytes} {next : Result (.put k b) → Program α}
      {next' : Result (.put k b') → Program β} (hb : B.Values k (some b) (some b'))
      (h : ∀ r : Except Store.Error Unit, B.Programs R (next r) (next' r)) :
      B.Programs R (.call (.put k b) next) (.call (.put k b') next')
  | get {k : String} {next : Result (.get k) → Program α} {next' : Result (.get k) → Program β}
      (herror : ∀ e, B.Programs R (next (.error e)) (next' (.error e)))
      (h : ∀ x x' : Option Bytes, B.Values k x x' → B.Programs R (next (.ok x)) (next' (.ok x'))) :
      B.Programs R (.call (.get k) next) (.call (.get k) next')
  | delete {k : String} {next : Result (.delete k) → Program α}
      {next' : Result (.delete k) → Program β} (h : ∀ r, B.Programs R (next r) (next' r)) :
      B.Programs R (.call (.delete k) next) (.call (.delete k) next')
  | list {next : Result .list → Program α} {next' : Result .list → Program β}
      (h : ∀ r, B.Programs R (next r) (next' r)) :
      B.Programs R (.call .list next) (.call .list next')

namespace Programs
variable {R : α → β → Prop} {S : γ → δ → Prop} {p : Program α} {p' : Program β}

theorem bind {f : α → Program γ} {f' : β → Program δ} (h : B.Programs R p p')
    (hf : ∀ a b, R a b → B.Programs S (f a) (f' b)) : B.Programs S (p.bind f) (p'.bind f') := by
  induction h with
  | done h => exact hf _ _ h
  | tell hn _ ih => exact .tell hn ih
  | left _ ih => exact .left ih
  | right _ ih => exact .right ih
  | put hb _ ih => exact .put hb ih
  | get _ _ iherror ih => exact .get iherror ih
  | delete _ ih => exact .delete ih
  | list _ ih => exact .list ih

theorem delete_of_eq {k k' : String} {next : Result (.delete k) → Program α}
    {next' : Result (.delete k') → Program β} (hk : k' = k)
    (h : ∀ r : Except Store.Error Unit, B.Programs R (next r) (next' r)) :
    B.Programs R (.call (.delete k) next) (.call (.delete k') next') := by
  subst hk
  exact .delete h

/-- Two calls of the same fate, unless the process has died before them: both have failed or both have
been answered. -/
theorem of_calls {c c' : Call} {next : Result c → Program α} {next' : Result c' → Program β}
    {m m₁ m' m₁' : Content} {tr tr' : List Observed} {out : Option α} {out' : Option β}
    (hf : Follows (.call c next) m tr out m₁) (hf' : Follows (.call c' next') m' tr' out' m₁')
    (hfates : Concur out.isSome (callFates tr) (callFates tr')) (hends : out.isSome = out'.isSome) :
    (out = none ∧ callFates tr = []) ∨ ∃ t t', Concur out.isSome (callFates t) (callFates t') ∧
      ((∃ e, tr = .called c (.error e) :: t ∧ tr' = .called c' (.error e) :: t' ∧
          Follows (next (.error e)) m t out m₁ ∧ Follows (next' (.error e)) m' t' out' m₁') ∨
        ∃ a a', tr = .called c (.ok a) :: t ∧ tr' = .called c' (.ok a') :: t' ∧
          c.Truthful m a ∧ c'.Truthful m' a' ∧ Fate.of c (.ok a) = .of c' (.ok a') ∧
          Follows (next (.ok a)) (c.effect m) t out m₁ ∧
            Follows (next' (.ok a')) (c'.effect m') t' out' m₁') := by
  have hof {c : Call} {e : Store.Error} : Fate.of c (.error e) = .failed e := by cases c <;> rfl
  have hne {c : Call} {a : c.Answer} {e : Store.Error} : Fate.of c (.ok a) ≠ .failed e := by
    cases c <;> exact fun h => by cases h
  cases hf with
  | cut => exact .inl ⟨rfl, rfl⟩
  | @call _ _ _ _ _ _ t _ hs hf =>
    cases hf' with
    | cut =>
      rw [hends] at hfates
      cases hfates.stops rfl
    | @call _ _ _ _ _ _ t' _ hs' hf' =>
      obtain ⟨hfate, hrest⟩ := Concur.of_cons (x := .of _ _) (y := .of _ _) hfates
      refine .inr ⟨t, t', hrest, ?_⟩
      cases hs with
      | failed e =>
        cases hs' with
        | failed e' =>
          rw [hof, hof] at hfate
          cases hfate
          exact .inl ⟨e, rfl, rfl, hf, hf'⟩
        | answered a' => exact absurd (hfate.symm.trans hof) hne
      | answered a ha =>
        cases hs' with
        | failed e' => exact absurd (hfate.trans hof) hne
        | answered a' ha' => exact .inr ⟨a, a', rfl, rfl, ha, ha', hfate, hf, hf'⟩

/-- How far two runs of bonded programs agree. -/
structure Outcomes (B : Bond) (R : α → β → Prop) (tr tr' : List Observed) (out : Option α)
    (out' : Option β) (m m' : Content) : Prop where
  fates : callFates tr = callFates tr'
  contents : B.Contents m m'
  results : Option.Rel R out out'
  sights : out.isSome → List.Forall₂ B.Sights (unlogged tr) (unlogged tr')

/-- The same after one more call. -/
theorem Outcomes.after_call {c c' : Call} {r : Result c} {r' : Result c'} {tr tr' : List Observed}
    {out : Option α} {out' : Option β} {m m' : Content} (h : Outcomes B R tr tr' out out' m m')
    (hs : B.Sights (.called c r) (.called c' r')) :
    Outcomes B R (.called c r :: tr) (.called c' r' :: tr') out out' m m' where
  fates := by
    have hfate : Fate.of c r = .of c' r' := Option.some.inj hs.fate_eq
    rw [callFates_called, callFates_called, hfate, h.fates]
  contents := h.contents
  results := h.results
  sights hsome := .cons hs (h.sights hsome)

/-- The processes have died before any call. -/
theorem Outcomes.of_cut {m m₁ m' m₁' : Content} {tr tr' : List Observed} {out : Option α}
    {out' : Option β} (hm : B.Contents m m') (hf : Follows p m tr out m₁)
    (hf' : Follows p' m' tr' out' m₁') (hout : out = none) (hends : out.isSome = out'.isSome)
    (htr : callFates tr = []) (hfates : Concur out.isSome (callFates tr) (callFates tr')) :
    Outcomes B R tr tr' out out' m₁ m₁' := by
  subst hout
  rw [htr] at hfates
  have htr' := hfates.eq_nil
  cases out' with
  | some b => cases hends
  | none =>
    rw [← hf.eq_of_fateless htr, ← hf'.eq_of_fateless htr'] at hm
    exact ⟨htr.trans htr'.symm, hm, .none, fun h => by cases h⟩

/-- **Bonded programs stay alike**, over stores that are alike and decide the same. -/
theorem follows {m m₁ m' m₁' : Content} {tr tr' : List Observed} {out : Option α} {out' : Option β}
    (h : B.Programs R p p') (hm : B.Contents m m') (hf : Follows p m tr out m₁)
    (hf' : Follows p' m' tr' out' m₁') (hfates : Concur out.isSome (callFates tr) (callFates tr'))
    (hends : out.isSome = out'.isSome) : Outcomes B R tr tr' out out' m₁ m₁' := by
  induction h generalizing m m' tr tr' with
  | done h =>
    obtain ⟨rfl, rfl, hout⟩ := hf.of_done
    obtain ⟨rfl, rfl, hout'⟩ := hf'.of_done
    rcases hout with rfl | rfl <;> rcases hout' with rfl | rfl
    · exact ⟨rfl, hm, .none, fun h => by cases h⟩
    · cases hends
    · cases hends
    · exact ⟨rfl, hm, .some h, fun _ => .nil⟩
  | tell hn h ih =>
    rcases hf.of_tell with ⟨rfl, rfl, rfl⟩ | ⟨tr, rfl, hrest⟩
    · exact .of_cut hm hf hf' rfl hends rfl hfates
    rcases hf'.of_tell with ⟨rfl, rfl, rfl⟩ | ⟨tr', rfl, hrest'⟩
    · obtain rfl := Option.isNone_iff_eq_none.1 (Option.isSome_eq_false_iff.1 hends)
      exact .of_cut hm hf hf' rfl hends (List.eq_nil_of_length_eq_zero (hfates.stops rfl)) hfates
    obtain ⟨hfates, hcontents, hresults, hsights⟩ := ih hm hrest hrest' hfates
    exact ⟨hfates, hcontents, hresults, fun hsome => hn.cons (hsights hsome)⟩
  | left h ih =>
    rcases hf.of_tell with ⟨rfl, rfl, rfl⟩ | ⟨tr, rfl, hrest⟩
    · exact .of_cut hm hf hf' rfl hends rfl hfates
    obtain ⟨hfates, hcontents, hresults, hsights⟩ := ih hm hrest hf' hfates
    exact ⟨hfates, hcontents, hresults, hsights⟩
  | right h ih =>
    rcases hf'.of_tell with ⟨rfl, rfl, rfl⟩ | ⟨tr', rfl, hrest'⟩
    · obtain rfl := Option.isNone_iff_eq_none.1 (Option.isSome_eq_false_iff.1 hends)
      exact .of_cut hm hf hf' rfl hends (List.eq_nil_of_length_eq_zero (hfates.stops rfl)) hfates
    obtain ⟨hfates, hcontents, hresults, hsights⟩ := ih hm hf hrest' hfates
    exact ⟨hfates, hcontents, hresults, hsights⟩
  | put hb h ih =>
    rcases of_calls hf hf' hfates hends with ⟨rfl, htr⟩ | ⟨t, t', hrest,
      ⟨e, rfl, rfl, hf, hf'⟩ | ⟨_, _, rfl, rfl, -, -, -, hf, hf'⟩⟩
    · exact .of_cut hm hf hf' rfl hends htr hfates
    · exact (ih _ hm hf hf' hrest).after_call (.put hb _)
    · exact (ih _ (hm.update hb) hf hf' hrest).after_call (.put hb _)
  | get herror h iherror ih =>
    rcases of_calls hf hf' hfates hends with ⟨rfl, htr⟩ | ⟨t, t', hrest,
      ⟨e, rfl, rfl, hf, hf'⟩ | ⟨_, _, rfl, rfl, hx, hx', -, hf, hf'⟩⟩
    · exact .of_cut hm hf hf' rfl hends htr hfates
    · exact (iherror e hm hf hf' hrest).after_call (.same _ _)
    · cases hx
      cases hx'
      exact (ih _ _ (hm _) hm hf hf' hrest).after_call (.read (hm _))
  | delete h ih =>
    rcases of_calls hf hf' hfates hends with ⟨rfl, htr⟩ | ⟨t, t', hrest,
      ⟨e, rfl, rfl, hf, hf'⟩ | ⟨_, _, rfl, rfl, -, -, -, hf, hf'⟩⟩
    · exact .of_cut hm hf hf' rfl hends htr hfates
    · exact (ih _ hm hf hf' hrest).after_call (.same _ _)
    · exact (ih _ (hm.update (.same none)) hf hf' hrest).after_call (.same _ _)
  | list h ih =>
    rcases of_calls hf hf' hfates hends with ⟨rfl, htr⟩ | ⟨t, t', hrest,
      ⟨e, rfl, rfl, hf, hf'⟩ | ⟨keys, keys', rfl, rfl, -, -, hkeys, hf, hf'⟩⟩
    · exact .of_cut hm hf hf' rfl hends htr hfates
    · exact (ih _ hm hf hf' hrest).after_call (.same _ _)
    · cases hkeys
      exact (ih _ hm hf hf' hrest).after_call (.same _ _)

/-- What can come of a program can come of it after one more call. -/
theorem exists_call {c c' : Call} {r : Result c} {r' : Result c'} {next : Result c' → Program β}
    {m m₁ : Content} {tr : List Observed} {alive : Bool} (hs : Served c' m r' m₁)
    (hfate : Fate.of c r = .of c' r')
    (h : ∃ tr' out m', Follows (next r') m₁ tr' out m' ∧ callFates tr = callFates tr' ∧
      alive = (out : Option β).isSome) :
    ∃ tr' out m', Follows (.call c' next) m tr' out m' ∧
      callFates (.called c r :: tr) = callFates tr' ∧ alive = (out : Option β).isSome := by
  obtain ⟨tr', out, m', hf, hfates, hends⟩ := h
  refine ⟨_, out, m', .call hs hf, ?_, hends⟩
  rw [callFates_called, callFates_called, hfate, hfates]

/-- **What the one program can come to, the other can**, with the same decisions of its store. -/
theorem exists_follows {m m₁ m' : Content} {tr : List Observed} {out : Option α}
    (h : B.Programs R p p') (hm : B.Contents m m') (hf : Follows p m tr out m₁) :
    ∃ tr' out' m₁', Follows p' m' tr' out' m₁' ∧ callFates tr = callFates tr' ∧
      out.isSome = (out' : Option β).isSome := by
  have hcut {p' : Program β} {m' : Content} : ∃ tr' out' m₁', Follows p' m' tr' out' m₁' ∧
      callFates [] = callFates tr' ∧ false = (out' : Option β).isSome :=
    ⟨[], none, m', .cut _ _, rfl, rfl⟩
  induction h generalizing m m' tr with
  | done h =>
    obtain ⟨rfl, rfl, rfl | rfl⟩ := hf.of_done
    · exact hcut
    · exact ⟨[], some _, m', .done _ _, rfl, rfl⟩
  | tell hn h ih =>
    rcases hf.of_tell with ⟨rfl, rfl, rfl⟩ | ⟨tr, rfl, hrest⟩
    · exact hcut
    obtain ⟨tr', out', m₁', hf', hfates, hends⟩ := ih hm hrest
    exact ⟨_, out', m₁', .tell hf', hfates, hends⟩
  | left h ih =>
    rcases hf.of_tell with ⟨rfl, rfl, rfl⟩ | ⟨tr, rfl, hrest⟩
    · exact hcut
    · have hgoes := ih hm hrest
      exact hgoes
  | right h ih =>
    obtain ⟨tr', out', m₁', hf', hfates, hends⟩ := ih hm hf
    exact ⟨_, out', m₁', .tell hf', hfates, hends⟩
  | put hb h ih =>
    rcases hf.of_call with ⟨rfl, rfl, rfl⟩ | ⟨e, tr, rfl, hrest⟩ | ⟨a, tr, rfl, -, hrest⟩
    · exact hcut
    · exact exists_call (.failed e) rfl (ih _ hm hrest)
    · exact exists_call (.answered (c := .put _ _) () trivial) rfl (ih _ (hm.update hb) hrest)
  | get herror h iherror ih =>
    rcases hf.of_call with ⟨rfl, rfl, rfl⟩ | ⟨e, tr, rfl, hrest⟩ | ⟨a, tr, rfl, ha, hrest⟩
    · exact hcut
    · exact exists_call (.failed e) rfl (iherror _ hm hrest)
    · cases ha
      exact exists_call (.answered (c := .get _) _ rfl) rfl (ih _ _ (hm _) hm hrest)
  | delete h ih =>
    rcases hf.of_call with ⟨rfl, rfl, rfl⟩ | ⟨e, tr, rfl, hrest⟩ | ⟨a, tr, rfl, -, hrest⟩
    · exact hcut
    · exact exists_call (.failed e) rfl (ih _ hm hrest)
    · exact exists_call (.answered (c := .delete _) () trivial) rfl
        (ih _ (hm.update (.same none)) hrest)
  | list h ih =>
    rcases hf.of_call with ⟨rfl, rfl, rfl⟩ | ⟨e, tr, rfl, hrest⟩ | ⟨keys, tr, rfl, hkeys, hrest⟩
    · exact hcut
    · exact exists_call (.failed e) rfl (ih _ hm hrest)
    · -- the other store can list the same keys
      refine exists_call (.answered (c := .list) keys ⟨hkeys.1, fun k hk => ?_⟩) rfl (ih _ hm hrest)
      exact hkeys.2 k (hm.isSome_eq k ▸ hk)

end Programs

end Bond
end PingDelivery
