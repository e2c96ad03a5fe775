import PingDelivery.Store.Memory
import Mathlib.Logic.Function.Basic

/-! # What following a program can come to

A store is seen as its content, the bytes under each key. `Served` is what any store promises of a
call: it fails and changes nothing, or it does its work. `Follows` relates a program to all that can
happen while it is followed over such a store: every call may fail, listings come in any order, and
the process may die at any point. What is proved of `Follows` holds over every backend that keeps
the promise.
-/

namespace PingDelivery.Store

abbrev Content := String → Option Bytes

namespace Call

/-- The content once the call has done its work. -/
def effect : Call → Content → Content
  | put k b, m => Function.update m k (some b)
  | delete k, m => Function.update m k none
  | get _, m | list, m => m

theorem effect_of_ne {c : Call} {m : Content} {k : String} (hk : k ∉ c.key?) :
    c.effect m k = m k := by
  cases c with
  | put k' b | delete k' =>
    exact Function.update_of_ne (fun he => hk (congrArg some he.symm)) _ m
  | get k' | list => rfl

/-- A listing has all keys, each once and in any order. Keys that the store does not hold, because
someone has just deleted them, may stand among them. -/
def Truthful (m : Content) : (c : Call) → c.Answer → Prop
  | put _ _, _ | delete _, _ => True
  | get k, a => a = m k
  | list, (keys : List String) => keys.Nodup ∧ ∀ k, (m k).isSome → k ∈ keys

end Call

inductive Served : (c : Call) → Content → Result c → Content → Prop where
  | failed {c : Call} {m : Content} (e : Error) : Served c m (.error e) m
  | answered {c : Call} {m : Content} (a : c.Answer) (h : c.Truthful m a) :
      Served c m (.ok a) (c.effect m)

/-- What can be seen of a program from outside. -/
inductive Observed where
  | told (n : Notice)
  | called (c : Call) (r : Result c)

/-- `Follows p m tr out m'`: the program can be followed from the content `m` to `m'`, leaving the
trace. Without a result the process has died on the way. -/
inductive Follows {α : Type} : Program α → Content → List Observed → Option α → Content → Prop where
  | cut (p : Program α) (m : Content) : Follows p m [] none m
  | done (a : α) (m : Content) : Follows (.done a) m [] (some a) m
  | tell {n : Notice} {p : Program α} {m m' : Content} {tr : List Observed} {out : Option α}
      (h : Follows p m tr out m') : Follows (.tell n p) m (.told n :: tr) out m'
  | call {c : Call} {next : Result c → Program α} {r : Result c} {m m₁ m' : Content}
      {tr : List Observed} {out : Option α} (hs : Served c m r m₁) (h : Follows (next r) m₁ tr out m') :
      Follows (.call c next) m (.called c r :: tr) out m'

namespace Follows
variable {α β : Type} {m m' : Content} {tr : List Observed}

/-- At the end, too, the process may die. -/
theorem die {p : Program α} {out : Option α} (h : Follows p m tr out m') :
    Follows p m tr none m' := by
  induction h with
  | cut p m => exact .cut p m
  | done a m => exact .cut _ m
  | tell _ ih => exact .tell ih
  | call hs _ ih => exact .call hs ih

/-- Whatever the store holds, a program can be followed to its end, if only by way of failures. -/
theorem exists_end (p : Program α) (m : Content) : ∃ tr a m', Follows p m tr (some a) m' := by
  induction p with
  | done a => exact ⟨_, a, m, .done a m⟩
  | tell n p ih =>
    obtain ⟨tr, a, m', h⟩ := ih
    exact ⟨_, a, m', .tell h⟩
  | call c next ih =>
    obtain ⟨tr, a, m', h⟩ := ih (.error Memory.failure)
    exact ⟨_, a, m', .call (.failed _) h⟩

/-! ## Peeling a program apart -/

theorem of_done {a : α} {out : Option α} (h : Follows (.done a) m tr out m') :
    tr = [] ∧ m' = m ∧ (out = none ∨ out = some a) := by
  cases h with
  | cut => exact ⟨rfl, rfl, .inl rfl⟩
  | done => exact ⟨rfl, rfl, .inr rfl⟩

theorem eq_of_done {a x : α} (h : Follows (.done a) m tr (some x) m') : x = a ∧ m' = m := by
  cases h with
  | done => exact ⟨rfl, rfl⟩

theorem of_tell {n : Notice} {p : Program α} {out : Option α}
    (h : Follows (.tell n p) m tr out m') :
    (tr = [] ∧ m' = m ∧ out = none) ∨ ∃ tr', tr = .told n :: tr' ∧ Follows p m tr' out m' := by
  cases h with
  | cut => exact .inl ⟨rfl, rfl, rfl⟩
  | tell h => exact .inr ⟨_, rfl, h⟩

theorem of_call {c : Call} {next : Result c → Program α} {out : Option α}
    (h : Follows (.call c next) m tr out m') :
    (tr = [] ∧ m' = m ∧ out = none) ∨
      (∃ e tr', tr = .called c (.error e) :: tr' ∧ Follows (next (.error e)) m tr' out m') ∨
      ∃ a tr', tr = .called c (.ok a) :: tr' ∧ c.Truthful m a ∧
        Follows (next (.ok a)) (c.effect m) tr' out m' := by
  cases h with
  | cut => exact .inl ⟨rfl, rfl, rfl⟩
  | call hs h =>
    cases hs with
    | failed e => exact .inr (.inl ⟨e, _, rfl, h⟩)
    | answered a ha => exact .inr (.inr ⟨a, _, rfl, ha, h⟩)

/-- A program in two parts dies in the first or is followed through it into the second. -/
theorem of_bind {p : Program α} {f : α → Program β} {out : Option β}
    (h : Follows (p.bind f) m tr out m') :
    (out = none ∧ Follows p m tr none m') ∨
      ∃ a tr₁ tr₂ m₁, Follows p m tr₁ (some a) m₁ ∧ Follows (f a) m₁ tr₂ out m' ∧
        tr = tr₁ ++ tr₂ := by
  induction p generalizing m tr with
  | done a => exact .inr ⟨a, [], tr, m, .done a m, h, rfl⟩
  | tell n p ih =>
    rcases of_tell h with ⟨rfl, rfl, rfl⟩ | ⟨tr', rfl, hrest⟩
    · exact .inl ⟨rfl, .cut _ _⟩
    · rcases ih hrest with ⟨rfl, hp⟩ | ⟨a, tr₁, tr₂, m₁, hp, hf, rfl⟩
      · exact .inl ⟨rfl, .tell hp⟩
      · exact .inr ⟨a, _, tr₂, m₁, .tell hp, hf, rfl⟩
  | call c next ih =>
    cases h with
    | cut => exact .inl ⟨rfl, .cut _ _⟩
    | call hs h =>
      rcases ih _ h with ⟨rfl, hp⟩ | ⟨a, tr₁, tr₂, m₁, hp, hf, rfl⟩
      · exact .inl ⟨rfl, .call hs hp⟩
      · exact .inr ⟨a, _, tr₂, m₁, .call hs hp, hf, rfl⟩

theorem bind {p : Program α} {f : α → Program β} {a : α} {m₁ : Content} {tr' : List Observed}
    {out : Option β} (hp : Follows p m tr (some a) m₁) (hf : Follows (f a) m₁ tr' out m') :
    Follows (p.bind f) m (tr ++ tr') out m' := by
  induction p generalizing m tr with
  | done a' =>
    cases hp
    exact hf
  | tell n p ih =>
    cases hp with
    | tell hp => exact .tell (ih hp)
  | call c next ih =>
    cases hp with
    | call hs hp => exact .call hs (ih _ hp)

/-- A program that only hands its result on comes to what it comes to without. -/
theorem of_bind_done {p : Program α} {f : α → β} {out : Option β}
    (h : Follows (p.bind fun a => .done (f a)) m tr out m') :
    ∃ out', Follows p m tr out' m' ∧ out = out'.map f := by
  rcases h.of_bind with ⟨rfl, hp⟩ | ⟨a, tr₁, tr₂, m₁, hp, hdone, rfl⟩
  · exact ⟨none, hp, rfl⟩
  · obtain ⟨rfl, rfl, rfl | rfl⟩ := hdone.of_done
    · rw [List.append_nil]
      exact ⟨none, hp.die, rfl⟩
    · rw [List.append_nil]
      exact ⟨some a, hp, rfl⟩

/-- The same where the continuation ends at once in every case of its own. -/
theorem of_bind_ends {p : Program α} {f : α → Program β} {out : Option β} (g : α → β)
    (hf : ∀ a, f a = .done (g a)) (h : Follows (p.bind f) m tr out m') :
    ∃ out', Follows p m tr out' m' ∧ out = out'.map g := by
  have hfg : f = fun a => .done (g a) := funext hf
  rw [hfg] at h
  exact h.of_bind_done

end Follows

/-! ## Laws of sequencing -/

namespace Program
variable {α β γ : Type}

theorem bind_assoc (p : Program α) (f : α → Program β) (g : β → Program γ) :
    (p.bind f).bind g = p.bind fun a => (f a).bind g := by
  induction p with
  | done a => rfl
  | tell n p ih => exact congrArg (Program.tell n) ih
  | call c next ih => exact congrArg (Program.call c) (funext ih)

theorem bind_done (p : Program α) : p.bind .done = p := by
  induction p with
  | done a => rfl
  | tell n p ih => exact congrArg (Program.tell n) ih
  | call c next ih => exact congrArg (Program.call c) (funext ih)

theorem bind_congr {p : Program α} {f g : α → Program β} (h : ∀ a, f a = g a) :
    p.bind f = p.bind g := congrArg p.bind (funext h)

end Program

/-! ## Backends -/

/-- Followed to its end over the backend the program gives the value. -/
structure Program.Gives {α σ : Type} (b : Backend σ) (p : Program α) (s : σ) (a : α) (t : σ) :
    Prop where
  value : (p.run b s).1 = a
  state : (p.run b s).2.1 = t

namespace Program.Gives
variable {α β σ : Type} {b : Backend σ} {p : Program α} {s t t' : σ} {a : α}

theorem done (a : α) (s : σ) : Gives b (.done a) s a s := ⟨rfl, rfl⟩

theorem tell {n : Notice} (h : Gives b p s a t) : Gives b (.tell n p) s a t := ⟨h.value, h.state⟩

theorem call {c : Call} {next : Result c → Program α} {r : Result c} (hr : (b.serve c s).1 = r)
    (h : Gives b (next r) (b.serve c s).2.1 a t) : Gives b (.call c next) s a t := by
  subst hr
  exact ⟨h.value, h.state⟩

theorem bind {f : α → Program β} {x : β} (h : Gives b p s a t) (hf : Gives b (f a) t x t') :
    Gives b (p.bind f) s x t' := by
  induction p generalizing s with
  | done a' =>
    obtain ⟨rfl, rfl⟩ := h
    exact hf
  | tell n p ih => exact (ih ⟨h.value, h.state⟩).tell
  | call c next ih => exact .call rfl (ih _ ⟨h.value, h.state⟩)

end Program.Gives

theorem Served.eq_of_ok {c : Call} {m m' : Content} {a : c.Answer} (h : Served c m (.ok a) m') :
    m' = c.effect m := by
  cases h with
  | answered => rfl

namespace Program
variable {α σ : Type} {b : Backend σ} {well : σ → Prop} {s : σ}

/-- What every call keeps, a program keeps. -/
theorem run_keeps (hstays : ∀ c s, well s → well (b.serve c s).2.1) (p : Program α) (hs : well s) :
    well (p.run b s).2.1 := by
  induction p generalizing s with
  | done a => exact hs
  | tell n p ih => exact ih hs
  | call c next ih => exact ih _ (hstays c s hs)

/-- A program can be followed through states in which the backend keeps the promise of a store, where
`view` is the content of a state. -/
theorem run_follows {view : σ → Content}
    (hserved : ∀ c s, well s → Served c (view s) (b.serve c s).1 (view (b.serve c s).2.1))
    (hstays : ∀ c s, well s → well (b.serve c s).2.1) (p : Program α) (hs : well s) :
    ∃ tr, Follows p (view s) tr (some (p.run b s).1) (view (p.run b s).2.1) := by
  induction p generalizing s with
  | done a => exact ⟨[], .done a _⟩
  | tell n p ih =>
    obtain ⟨tr, h⟩ := ih hs
    exact ⟨_, .tell h⟩
  | call c next ih =>
    obtain ⟨tr, h⟩ := ih (b.serve c s).1 (hstays c s hs)
    exact ⟨_, .call (hserved c s hs) h⟩

end Program

/-- The backend keeps the promise of a store, where `view` is the content of a state. -/
def Backend.Implements {σ : Type} (b : Backend σ) (view : σ → Content) : Prop :=
  ∀ c s, Served c (view s) (b.serve c s).1 (view (b.serve c s).2.1)

namespace Backend.Implements
variable {α σ : Type} {b : Backend σ} {view : σ → Content}

theorem run_follows (hb : b.Implements view) (p : Program α) (s : σ) :
    ∃ tr, Follows p (view s) tr (some (p.run b s).1) (view (p.run b s).2.1) :=
  Program.run_follows (fun c s (_ : True) => hb c s) (fun _ _ _ => trivial) p trivial

end Backend.Implements

/-- No call in the trace failed that had no bad key. -/
structure Untroubled (tr : List Observed) : Prop where
  answered : ∀ (c : Call) (e : Error), .called c (.error e) ∈ tr → ∃ k ∈ c.key?, ¬ ValidKey k
  listed : ∀ keys : List String, .called .list (.ok keys) ∈ tr → ∀ k ∈ keys, ValidKey k

theorem Untroubled.nil : Untroubled [] := ⟨nofun, nofun⟩

/-- A backend in working order: from a state that is `well`, calls with valid keys succeed and
nothing but valid keys is listed. -/
structure Backend.Healthy {σ : Type} (b : Backend σ) (view : σ → Content) (well : σ → Prop) :
    Prop where
  implements : b.Implements view
  answers : ∀ c s, well s → (∀ k ∈ c.key?, ValidKey k) → ∃ a, (b.serve c s).1 = .ok a
  lists : ∀ s, well s → ∀ keys : List String, (b.serve .list s).1 = .ok keys →
    ∀ k ∈ keys, ValidKey k
  stays : ∀ c s, well s → well (b.serve c s).2.1

namespace Backend.Healthy
variable {α σ : Type} {b : Backend σ} {view : σ → Content} {well : σ → Prop} {s : σ}

theorem untroubled_called (hb : b.Healthy view well) (hs : well s) (c : Call)
    {tr : List Observed} (htr : Untroubled tr) : Untroubled (.called c (b.serve c s).1 :: tr) := by
  constructor
  · intro c' e hc
    rcases List.mem_cons.1 hc with hc | hc
    · injection hc with hcall hresult
      subst hcall
      by_contra hvalid
      obtain ⟨a, ha⟩ := hb.answers c' s hs fun k hk => by_contra fun hk' => hvalid ⟨k, hk, hk'⟩
      rw [ha] at hresult
      cases hresult
    · exact htr.answered c' e hc
  · intro keys hk
    rcases List.mem_cons.1 hk with hk | hk
    · injection hk with hcall hresult
      subst hcall
      exact hb.lists s hs keys (eq_of_heq hresult).symm
    · exact htr.listed keys hk

theorem run_follows (hb : b.Healthy view well) (p : Program α) (hs : well s) :
    ∃ tr, Follows p (view s) tr (some (p.run b s).1) (view (p.run b s).2.1) ∧ Untroubled tr := by
  induction p generalizing s with
  | done a => exact ⟨[], .done a _, .nil⟩
  | tell n p ih =>
    obtain ⟨tr, h, htr⟩ := ih hs
    refine ⟨_, .tell h, ?_, ?_⟩
    · intro c e hc
      rcases List.mem_cons.1 hc with hc | hc
      · cases hc
      · exact htr.answered c e hc
    · intro keys hk
      rcases List.mem_cons.1 hk with hk | hk
      · cases hk
      · exact htr.listed keys hk
  | call c next ih =>
    obtain ⟨tr, h, htr⟩ := ih (b.serve c s).1 (hb.stays c s hs)
    exact ⟨_, .call (hb.implements c s) h, hb.untroubled_called hs c htr⟩

/-- The trace begins with what the backend has answered to the first call. -/
theorem call_follows (hb : b.Healthy view well) {c : Call} (next : Result c → Program α)
    (hs : well s) : ∃ tr, Follows (.call c next) (view s) (.called c (b.serve c s).1 :: tr)
      (some ((Program.call c next).run b s).1) (view ((Program.call c next).run b s).2.1) ∧
        Untroubled (.called c (b.serve c s).1 :: tr) := by
  obtain ⟨tr, h, htr⟩ := hb.run_follows (next (b.serve c s).1) (hb.stays c s hs)
  exact ⟨tr, .call (hb.implements c s) h, hb.untroubled_called hs c htr⟩

end Backend.Healthy

namespace Memory

/-- The map store keeps the promise, failing or not. -/
theorem implements : backend.Implements fun m => m.records.get? := by
  intro c m
  change Served c m.records.get? (serve c m).1 (serve c m).2.1.records.get?
  unfold serve
  split
  · exact .failed failure
  · cases c with
    | put k b =>
      by_cases hk : ValidKey k
      · have heff : (m.records.insert k b).get? = (Call.put k b).effect m.records.get? := by
          funext k'
          simp only [Dict.get?_insert, Call.effect, Function.update_apply]
        simp only [answer, if_pos hk, heff]
        exact .answered (c := .put k b) () trivial
      · simp only [answer, if_neg hk]
        exact .failed _
    | get k =>
      by_cases hk : ValidKey k
      · simp only [answer, if_pos hk]
        exact .answered (c := .get k) (m.records.get? k) rfl
      · simp only [answer, if_neg hk]
        exact .failed _
    | delete k =>
      by_cases hk : ValidKey k
      · have heff : (m.records.erase k).get? = (Call.delete k).effect m.records.get? := by
          funext k'
          simp only [Dict.get?_erase, Call.effect, Function.update_apply]
        simp only [answer, if_pos hk, heff]
        exact .answered (c := .delete k) () trivial
      · simp only [answer, if_neg hk]
        exact .failed _
    | list =>
      exact .answered (c := .list) m.records.keys
        ⟨m.records.nodup_keys, fun _ => Dict.mem_keys_of_isSome⟩

/-- The map is not failing and has come about by calls. -/
structure Working (m : Memory) : Prop where
  running : m.failing = false
  valid : ∀ k ∈ m.records.keys, ValidKey k

theorem Working.empty : Working .empty := ⟨rfl, fun _ hk => absurd hk List.not_mem_nil⟩

theorem Working.answer {m : Memory} (h : Working m) (c : Call) : Working (answer c m).2 := by
  cases c with
  | put k b =>
    by_cases hk : ValidKey k
    · simp only [Memory.answer, if_pos hk]
      refine ⟨h.running, ?_⟩
      intro k' hk'
      rcases Dict.mem_keys_insert hk' with rfl | hk'
      · exact hk
      · exact h.valid k' hk'
    · simp only [Memory.answer, if_neg hk]
      exact h
  | delete k =>
    by_cases hk : ValidKey k
    · simp only [Memory.answer, if_pos hk]
      exact ⟨h.running, fun k' hk' => h.valid k' (Dict.mem_keys_erase hk')⟩
    · simp only [Memory.answer, if_neg hk]
      exact h
  | get k | list => exact h

theorem Working.serve {m : Memory} (h : Working m) (c : Call) :
    serve c m = ((Memory.answer c m).1, (Memory.answer c m).2, []) := by
  rw [Memory.serve, h.running]
  rfl

/-- The map store is in working order unless it is failing. -/
theorem healthy : backend.Healthy (fun m => m.records.get?) Working where
  implements := implements
  answers c m hm hvalid := by
    have hok : ∃ a, (answer c m).1 = .ok a := by
      cases c with
      | put k b => exact ⟨(), by simp only [answer, if_pos (hvalid k rfl)]⟩
      | get k => exact ⟨m.records.get? k, by simp only [answer, if_pos (hvalid k rfl)]⟩
      | delete k => exact ⟨(), by simp only [answer, if_pos (hvalid k rfl)]⟩
      | list => exact ⟨m.records.keys, rfl⟩
    obtain ⟨a, ha⟩ := hok
    exact ⟨a, (congrArg Prod.fst (hm.serve c)).trans ha⟩
  lists m hm keys hkeys := by
    have hserve : (serve .list m).1 = .ok m.records.keys := congrArg Prod.fst (hm.serve .list)
    cases hserve.symm.trans hkeys
    exact hm.valid
  stays c m hm := by
    have hserve : (serve c m).2.1 = (answer c m).2 := by rw [hm.serve c]
    exact hserve ▸ hm.answer c

end Memory
end PingDelivery.Store
