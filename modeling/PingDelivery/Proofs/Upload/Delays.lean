import PingDelivery.Proofs.Settings.Precedence
import PingDelivery.Proofs.Upload.Waiting

/-! # Delays

Delays are computed in milliseconds of 64 bits that stop at the largest number, and are then cut to the
ceiling. `plain_ofMillis` says that nothing of this shows where a configuration is in whole milliseconds
itself, as all that settings give are: the delay is the strategy's formula over all numbers, up to the
ceiling. A configuration made otherwise may have a base that is not so many milliseconds. Then two of the
three strategies start from less than the base, which may be nothing.
-/

namespace PingDelivery.Upload

/-! ## What a strategy asks for -/

namespace Strategy
variable (s : Strategy) (base : Nat)

/-- The milliseconds that are asked for after so many failures in a row. -/
def exact (failures : Nat) : Nat :=
  match s with
  | exponential => base * Nat.pow 2 failures
  | linear => base * (failures + 1)
  | fixed => base

theorem exact_mono {m n : Nat} (h : m ≤ n) : s.exact base m ≤ s.exact base n := by
  cases s with
  | exponential => exact Nat.mul_le_mul_left base (Nat.pow_le_pow_right (by decide) h)
  | linear => exact Nat.mul_le_mul_left base (Nat.succ_le_succ h)
  | fixed => exact Nat.le_refl base

theorem exact_zero : s.exact base 0 = base := by
  cases s with
  | exponential => exact Nat.mul_one base
  | linear => exact Nat.mul_one base
  | fixed => rfl

theorem le_exact (n : Nat) : base ≤ s.exact base n := by
  have h := s.exact_mono base (Nat.zero_le n)
  rwa [exact_zero] at h

theorem exact_of_zero (n : Nat) : s.exact 0 n = 0 := by
  cases s with
  | exponential => exact Nat.zero_mul _
  | linear => exact Nat.zero_mul _
  | fixed => rfl

end Strategy

namespace Backoff

/-! ## What is computed of it -/

theorem saturatingMul_power (base : Nat) (attempt : UInt32) :
    saturatingMul base (power attempt) = min (base * Nat.pow 2 attempt.toNat) wordMax := by
  unfold saturatingMul power
  split
  · rfl
  · rename_i hlarge
    rcases Nat.eq_zero_or_pos base with rfl | hpos
    · rw [Nat.zero_mul, Nat.zero_mul]
    · -- the multiplier stops at the largest number, but so does the product with the whole power
      have hpower : Nat.pow 2 64 ≤ Nat.pow 2 attempt.toNat :=
        Nat.pow_le_pow_right (by decide) (Nat.le_of_not_lt hlarge)
      have hexact : wordMax ≤ base * Nat.pow 2 attempt.toNat :=
        Nat.le_trans (Nat.le_trans (by decide) hpower) (Nat.le_mul_of_pos_left _ hpos)
      have hstopped : wordMax ≤ base * wordMax := Nat.le_mul_of_pos_left _ hpos
      exact (Nat.min_eq_right hstopped).trans (Nat.min_eq_right hexact).symm

variable {c : Config}

theorem uncapped_of_fixed (h : c.strategy = .fixed) (attempt : UInt32) : uncapped c attempt = c.base := by
  simp only [uncapped, h]

theorem uncapped_of_growing (h : c.strategy ≠ .fixed) (attempt : UInt32) : uncapped c attempt =
    .ofMillis (min (c.strategy.exact (wordMillis c.base) attempt.toNat) wordMax) := by
  cases hs : c.strategy with
  | exponential => simp only [uncapped, hs, saturatingMul_power, Strategy.exact]
  | linear => simp only [uncapped, hs, saturatingMul, Strategy.exact]
  | fixed => exact absurd hs h

theorem delay_of_plain (h : c.jitter = false) (shake : Nat → Nat) (attempt : UInt32) :
    delay c shake attempt = plain c attempt := by
  rw [delay, h]
  rfl

theorem delay_le_ceiling (c : Config) (shake : Nat → Nat) (attempt : UInt32) :
    delay c shake attempt ≤ c.ceiling := by
  unfold delay
  split
  · exact Span.min_le_right _ _
  · exact Span.min_le_right _ _

/-! ## Whole milliseconds -/

/-- A configuration in whole milliseconds. -/
def Config.ofMillis (s : Strategy) (base ceiling : Nat) (jitter : Bool) : Config :=
  ⟨s, .ofMillis base, .ofMillis ceiling, jitter⟩

theorem wordMillis_le (d : Span) : wordMillis d ≤ wordMax :=
  Nat.le_of_lt_succ (Nat.mod_lt _ (by decide))

theorem wordMillis_ofMillis {n : Nat} (h : n ≤ wordMax) : wordMillis (.ofMillis n) = n := by
  rw [wordMillis, Span.millis_ofMillis]
  exact Nat.mod_eq_of_lt (Nat.lt_succ_of_le h)

theorem ofMillis_wordMillis_le (d : Span) : Span.ofMillis (wordMillis d) ≤ d := by
  have hword : wordMillis d ≤ d.nanos / 1000000 := Nat.mod_le _ _
  exact Nat.le_trans (Nat.mul_le_mul_right 1000000 hword) (Nat.div_mul_le_self _ _)

/-- **Nothing of the computation shows.** -/
theorem plain_ofMillis (s : Strategy) {base ceiling : Nat} (hbase : base ≤ wordMax)
    (hceiling : ceiling ≤ wordMax) (jitter : Bool) (attempt : UInt32) :
    plain (.ofMillis s base ceiling jitter) attempt =
      .ofMillis (min (s.exact base attempt.toNat) ceiling) := by
  by_cases hfixed : s = .fixed
  · subst hfixed
    exact Span.min_ofMillis base ceiling
  · have huncapped : uncapped (.ofMillis s base ceiling jitter) attempt =
        .ofMillis (min (s.exact (wordMillis (.ofMillis base)) attempt.toNat) wordMax) :=
      uncapped_of_growing hfixed attempt
    rw [wordMillis_ofMillis hbase] at huncapped
    -- a product that was stopped at the largest number is over the ceiling, as is the whole product
    have habsorbed : min (min (s.exact base attempt.toNat) wordMax) ceiling =
        min (s.exact base attempt.toNat) ceiling := by
      rw [Nat.min_assoc, Nat.min_eq_right hceiling]
    rw [plain, huncapped]
    exact (Span.min_ofMillis _ _).trans (congrArg Span.ofMillis habsorbed)

/-! ## Failures in a row -/

/-- What is done to a back-off. A failure comes with what jitter makes of its delay. -/
inductive Call where
  | fail (shake : Nat → Nat)
  | reset

def Call.isFail : Call → Bool
  | fail _ => true
  | reset => false

def call (b : Backoff) : Call → Backoff
  | .fail shake => (b.fail shake).2
  | .reset => b.reset

/-- The failures since the last reset. -/
def streak (calls : List Call) : Nat := (calls.reverse.takeWhile Call.isFail).length

theorem streak_fail (calls : List Call) (shake : Nat → Nat) :
    streak (calls ++ [.fail shake]) = streak calls + 1 := by
  rw [streak, List.reverse_concat, List.takeWhile_cons_of_pos (by rfl), List.length_cons, streak]

theorem streak_reset (calls : List Call) : streak (calls ++ [.reset]) = 0 := by
  rw [streak, List.reverse_concat, List.takeWhile_cons_of_neg (by exact Bool.false_ne_true),
    List.length_nil]

/-- The failures are counted as far as they can be. -/
theorem foldl_call (c : Config) (calls : List Call) :
    (calls.foldl call (.ofConfig c)).config = c ∧
      (calls.foldl call (.ofConfig c)).failures.toNat = min (streak calls) most := by
  induction calls using List.reverseRecOn with
  | nil => exact ⟨rfl, rfl⟩
  | append_singleton calls x ih =>
    obtain ⟨hconfig, hfailures⟩ := ih
    rw [List.foldl_append, List.foldl_cons, List.foldl_nil]
    cases x with
    | fail shake =>
      rw [streak_fail]
      exact ⟨hconfig, toNat_fail _ shake hfailures⟩
    | reset =>
      rw [streak_reset]
      exact ⟨hconfig, rfl⟩

theorem fst_fail_foldl_call (c : Config) (calls : List Call) (shake : Nat → Nat) :
    ((calls.foldl call (.ofConfig c)).fail shake).1 =
      delay c shake (.ofNat (min (streak calls) most)) := by
  obtain ⟨hconfig, hfailures⟩ := foldl_call c calls
  rw [← hfailures, UInt32.ofNat_toNat]
  simp only [fail, hconfig]

/-! ## What settings give -/

section
open Settings Settings.Decode

theorem exists_ofMillis {d : Span} (h : Whole d) : ∃ n, n ≤ wordMax ∧ d = .ofMillis n :=
  ⟨wordMillis d, wordMillis_le d, Eq.symm h⟩

theorem exists_config_ofMillis (hbase : Whole c.base) (hceiling : Whole c.ceiling) :
    ∃ s base ceiling jitter, base ≤ wordMax ∧ ceiling ≤ wordMax ∧ c = .ofMillis s base ceiling jitter := by
  obtain ⟨base, hle, hb⟩ := exists_ofMillis hbase
  obtain ⟨ceiling, hle', hc⟩ := exists_ofMillis hceiling
  refine ⟨c.strategy, base, ceiling, c.jitter, hle, hle', ?_⟩
  rw [Config.ofMillis, ← hb, ← hc]

theorem whole_of_decode {d : Dialect} {v : Json} (h : Decode.backoff d v = some c) :
    Whole c.base ∧ Whole c.ceiling := by
  have hbase : Told millis (mention "base_delay" 1 v) Config.standard.base c.base :=
    Owns.told Config.base ⟨by simp, ⟨_, rfl, fun _ _ => rfl⟩, by simp [keeps_setter]⟩ h
  have hceiling : Told millis (mention "max_delay" 2 v) Config.standard.ceiling c.ceiling :=
    Owns.told Config.ceiling ⟨by simp, ⟨_, rfl, fun _ _ => rfl⟩, by simp [keeps_setter]⟩ h
  exact ⟨whole_of_told hbase rfl, whole_of_told hceiling rfl⟩

/-- The back-off of settings is read from a file or is the default: no variable is for it. -/
theorem whole_of_settings {file : Option SettingsFile} {env : Environment} {start settings : Settings}
    (hstart : starting file = .ok start) (h : start.overridden env = .ok settings) :
    Whole settings.lifecycle.backoff.base ∧ Whole settings.lifecycle.backoff.ceiling := by
  obtain ⟨doc, -, hgiven⟩ := exists_opened hstart
  have hcombined := combined_of_overridden hgiven h
  have hbackoff : (Field.ofLifecycle (·.backoff) "backoff" 8 (Decode.backoff .toml)).Given doc settings :=
    hcombined.fixed _ (by simp [Settings.fixed])
  unfold Field.Given Told at hbackoff
  split at hbackoff
  · exact whole_of_decode hbackoff
  · rw [show settings.lifecycle.backoff = .standard from hbackoff]
    exact ⟨rfl, rfl⟩

end

/-- **Delays are exact.** In whole milliseconds, as all that a file or variables give are, the delay
without jitter is what the strategy asks for over all numbers, up to the ceiling; it does not shrink as the
failures grow, and with jitter, whatever that does, it stays under the ceiling. The delay of a failure is
the one for the failures before it since the last reset, of which 32 bits can be counted. -/
theorem delays_exact (s : Strategy) {base ceiling : Nat} (hbase : base ≤ wordMax)
    (hceiling : ceiling ≤ wordMax) :
    (∀ shake attempt, delay (.ofMillis s base ceiling false) shake attempt =
      .ofMillis (min (s.exact base attempt.toNat) ceiling)) ∧
    (∀ shake shake' attempt attempt', attempt ≤ attempt' →
      delay (.ofMillis s base ceiling false) shake attempt ≤
        delay (.ofMillis s base ceiling false) shake' attempt') ∧
    (∀ jitter shake attempt, delay (.ofMillis s base ceiling jitter) shake attempt ≤ .ofMillis ceiling) ∧
    (∀ jitter calls shake,
      ((calls.foldl call (.ofConfig (.ofMillis s base ceiling jitter))).fail shake).1 =
        delay (.ofMillis s base ceiling jitter) shake (.ofNat (min (streak calls) most))) ∧
    (∀ file env start settings, Settings.starting file = .ok start →
      start.overridden env = .ok settings → ∃ s base ceiling jitter, base ≤ wordMax ∧ ceiling ≤ wordMax ∧
        settings.lifecycle.backoff = .ofMillis s base ceiling jitter) := by
  have hexact (shake : Nat → Nat) (attempt : UInt32) :
      delay (.ofMillis s base ceiling false) shake attempt =
        .ofMillis (min (s.exact base attempt.toNat) ceiling) :=
    (delay_of_plain rfl shake attempt).trans (plain_ofMillis s hbase hceiling false attempt)
  refine ⟨hexact, fun shake shake' attempt attempt' hle => ?_, fun jitter => delay_le_ceiling _,
    fun jitter => fst_fail_foldl_call _, fun file env start settings hstart h => ?_⟩
  · rw [hexact, hexact, Span.ofMillis_le_ofMillis]
    have hgrows := s.exact_mono base (UInt32.le_iff_toNat_le.1 hle)
    omega
  · obtain ⟨hwhole, hwhole'⟩ := whole_of_settings hstart h
    exact exists_config_ofMillis hwhole hwhole'

/-- A file that spaces failed runs evenly. -/
def spacing : String :=
  "[lifecycle.backoff]\nstrategy = \"linear_backoff\"\nbase_delay = 250\nmax_delay = 10000\n"

def spaced : Settings where
  client := .standard
  lifecycle := { LifecycleSettings.standard with backoff := .ofMillis .linear 250 10000 true }

/-- The largest ceiling is met as soon as the power passes it, and a reset starts over. -/
theorem delays_of_one_milli :
    1 ≤ wordMax ∧ wordMax ≤ wordMax ∧
    delay (.ofMillis .exponential 1 wordMax false) id 63 = .ofMillis 0x8000000000000000 ∧
    delay (.ofMillis .exponential 1 wordMax false) id 64 = .ofMillis wordMax ∧
    (([.fail id, .reset, .fail id, .fail id].foldl call
      (.ofConfig (.ofMillis .exponential 1 wordMax false))).fail id).1 = .ofMillis 4 ∧
    delay (.ofMillis .exponential 1 wordMax true) (fun _ => wordMax + 1) 5 ≤ .ofMillis wordMax ∧
    Settings.starting (some (.holding (Bytes.ofText spacing))) = .ok spaced ∧
    spaced.overridden .empty = .ok spaced ∧
    ∃ s base ceiling jitter, base ≤ wordMax ∧ ceiling ≤ wordMax ∧
      spaced.lifecycle.backoff = .ofMillis s base ceiling jitter := by
  have hone : 1 ≤ wordMax := by decide
  have hlargest : wordMax ≤ wordMax := Nat.le_refl wordMax
  have hstart : Settings.starting (some (.holding (Bytes.ofText spacing))) = .ok spaced :=
    Settings.eq_ok_of_toOption (by decide +kernel)
  have hspaced : spaced.overridden .empty = .ok spaced := rfl
  obtain ⟨hexact, -, hceiling, hcalls, hsettings⟩ := delays_exact .exponential hone hlargest
  refine ⟨hone, hlargest, (hexact id 63).trans (by decide), (hexact id 64).trans (by decide), ?_,
    hceiling true _ 5, hstart, hspaced, hsettings _ _ _ _ hstart hspaced⟩
  exact (hcalls false _ id).trans ((hexact id _).trans (by decide))

/-! ## Bases that are not whole milliseconds -/

/-- The base is asked for as it is. -/
def Config.Undiminished (c : Config) : Prop := c.strategy = .fixed ∨ ∃ n, n ≤ wordMax ∧ c.base = .ofMillis n

/-- What is asked for at least: the whole milliseconds of the base, cut to 64 bits. -/
theorem le_plain (horder : c.base ≤ c.ceiling) (attempt : UInt32) :
    .ofMillis (wordMillis c.base) ≤ plain c attempt := by
  have hword := ofMillis_wordMillis_le c.base
  refine Span.le_min ?_ (Nat.le_trans hword horder)
  by_cases hfixed : c.strategy = .fixed
  · rw [uncapped_of_fixed hfixed]
    exact hword
  · rw [uncapped_of_growing hfixed, Span.ofMillis_le_ofMillis]
    exact Nat.le_min.2 ⟨c.strategy.le_exact _ attempt.toNat, wordMillis_le c.base⟩

theorem plain_zero (horder : c.base ≤ c.ceiling) (h : c.strategy ≠ .fixed) :
    plain c 0 = .ofMillis (wordMillis c.base) := by
  have hfirst : uncapped c 0 = .ofMillis (wordMillis c.base) := by
    rw [uncapped_of_growing h, UInt32.toNat_zero, Strategy.exact_zero,
      Nat.min_eq_left (wordMillis_le c.base)]
  rw [plain, hfirst]
  exact Span.min_eq_left (Nat.le_trans (ofMillis_wordMillis_le c.base) horder)

theorem base_le_plain_iff (horder : c.base ≤ c.ceiling) :
    (∀ attempt, c.base ≤ plain c attempt) ↔ c.Undiminished := by
  constructor
  · intro h
    by_cases hfixed : c.strategy = .fixed
    · exact .inl hfixed
    · -- before any failure is counted the delay is what the conversion leaves of the base
      have hfirst := h 0
      rw [plain_zero horder hfixed] at hfirst
      have heq : c.base = .ofMillis (wordMillis c.base) :=
        congrArg Span.mk (Nat.le_antisymm hfirst (ofMillis_wordMillis_le c.base))
      exact .inr ⟨_, wordMillis_le c.base, heq⟩
  · rintro (hfixed | ⟨n, hn, hbase⟩) attempt
    · exact Span.le_min (uncapped_of_fixed hfixed attempt ▸ Nat.le_refl _) horder
    · have hle := le_plain horder attempt
      rwa [hbase, wordMillis_ofMillis hn, ← hbase] at hle

/-- Nothing is waited where the milliseconds of the base are nothing. -/
theorem plain_eq_zero_iff (horder : c.base ≤ c.ceiling) (hbase : c.base.nanos ≠ 0) (attempt : UInt32) :
    (plain c attempt).nanos = 0 ↔ c.strategy ≠ .fixed ∧ wordMillis c.base = 0 := by
  constructor
  · intro hzero
    refine ⟨fun hfixed => hbase ?_, ?_⟩
    · have hle : c.base.nanos ≤ (plain c attempt).nanos :=
        (base_le_plain_iff horder).2 (.inl hfixed) attempt
      omega
    · have hle : wordMillis c.base * 1000000 ≤ (plain c attempt).nanos := le_plain horder attempt
      omega
  · rintro ⟨hgrowing, hword⟩
    have hle : (plain c attempt).nanos ≤ (uncapped c attempt).nanos := Span.min_le_left _ _
    rw [uncapped_of_growing hgrowing, hword, Strategy.exact_of_zero, Nat.zero_min] at hle
    exact Nat.le_zero.1 (Nat.le_trans hle (Nat.le_of_eq (Nat.zero_mul _)))

theorem retryAt_after (w : Worker) (shake : Nat → Nat) (now : Nat) {s : Summary}
    (h : s.stopReason = .recoverableFailure) : (w.after shake now (.ok s)).1.retryAt =
      some (now + (delay w.backoff.config shake w.backoff.failures).ceilMillis) := by
  simp only [Worker.after, if_pos h, fail]

/-- **How much of the base is waited.** Without jitter a delay is never over the ceiling and never under
the whole milliseconds of the base, cut to 64 bits. It is never under the base itself exactly if the delay
is fixed or the base is a number of milliseconds that 64 bits hold; then a worker waits it out after every
run that failed recoverably. A base that is not nothing is skipped exactly if its milliseconds, so cut,
are nothing and the delay is not fixed. -/
theorem base_waited {c : Config} (horder : c.base ≤ c.ceiling) (hplain : c.jitter = false)
    (shake : Nat → Nat) :
    (∀ attempt, .ofMillis (wordMillis c.base) ≤ delay c shake attempt ∧
      delay c shake attempt ≤ c.ceiling) ∧
    ((∀ attempt, c.base ≤ delay c shake attempt) ↔ c.Undiminished) ∧
    (c.base.nanos ≠ 0 → ∀ attempt, (delay c shake attempt).nanos = 0 ↔
      c.strategy ≠ .fixed ∧ wordMillis c.base = 0) ∧
    (c.Undiminished → ∀ (w : Worker) (now : Nat) (s : Summary), w.backoff.config = c →
      s.stopReason = .recoverableFailure → ∃ t, (w.after shake now (.ok s)).1.retryAt = some t ∧
        (Span.ofMillis now).nanos + c.base.nanos ≤ (Span.ofMillis t).nanos) := by
  have hdelay (attempt : UInt32) : delay c shake attempt = plain c attempt :=
    delay_of_plain hplain shake attempt
  refine ⟨fun attempt => ⟨?_, delay_le_ceiling c shake attempt⟩, ?_, fun hbase attempt => ?_, ?_⟩
  · rw [hdelay]
    exact le_plain horder attempt
  · simp only [hdelay]
    exact base_le_plain_iff horder
  · rw [hdelay]
    exact plain_eq_zero_iff horder hbase attempt
  · rintro hkept w now s rfl hs
    refine ⟨_, retryAt_after w shake now hs, ?_⟩
    have hbase : w.backoff.config.base.nanos ≤ (plain w.backoff.config w.backoff.failures).nanos :=
      (base_le_plain_iff horder).2 hkept w.backoff.failures
    have hwait := Vigil.nanos_le_of_ceilMillis (Nat.le_refl
      (now + (plain w.backoff.config w.backoff.failures).ceilMillis))
    rw [hdelay]
    omega

/-- A base of a tenth of a second is waited out, however often a run has failed. -/
theorem tenth_of_second_waited :
    Span.ofMillis 100 ≤ .ofMillis 5000 ∧ (Config.ofMillis .exponential 100 5000 false).jitter = false ∧
    (∀ attempt, .ofMillis 100 ≤ delay (.ofMillis .exponential 100 5000 false) id attempt) ∧
    (delay (.ofMillis .exponential 100 5000 false) id 10).nanos ≠ 0 ∧
    ∃ t, ((⟨⟨.ofMillis .exponential 100 5000 false, 3⟩, none⟩ : Worker).after id 7
      (.ok ⟨2, 0, 1, 0, .recoverableFailure⟩)).1.retryAt = some t ∧
        (Span.ofMillis 7).nanos + (Span.ofMillis 100).nanos ≤ (Span.ofMillis t).nanos := by
  have horder : Span.ofMillis 100 ≤ .ofMillis 5000 := by decide
  have hkept : (Config.ofMillis .exponential 100 5000 false).Undiminished := .inr ⟨100, by decide, rfl⟩
  obtain ⟨-, hbase, hzero, hworker⟩ :=
    base_waited (c := .ofMillis .exponential 100 5000 false) horder rfl id
  refine ⟨horder, rfl, hbase.2 hkept, fun hnone => ?_, hworker hkept _ 7 _ rfl rfl⟩
  have hskipped := ((hzero (by decide) 10).1 hnone).2
  exact absurd hskipped (by decide)

/-- Half a millisecond is skipped where the delay grows and waited where it is fixed, and what goes beyond
64 bits of milliseconds is lost. -/
theorem half_milli_skipped :
    (⟨500000⟩ : Span) ≤ ⟨500000⟩ ∧
    delay ⟨.exponential, ⟨500000⟩, ⟨500000⟩, false⟩ id 0 = ⟨0⟩ ∧
    ¬ (⟨500000⟩ : Span) ≤ delay ⟨.exponential, ⟨500000⟩, ⟨500000⟩, false⟩ id 0 ∧
    delay ⟨.fixed, ⟨500000⟩, ⟨500000⟩, false⟩ id 0 = ⟨500000⟩ ∧
    ((⟨.ofConfig ⟨.exponential, ⟨500000⟩, ⟨500000⟩, false⟩, none⟩ : Worker).after id 7
      (.ok ⟨2, 0, 1, 0, .recoverableFailure⟩)).1.retryAt = some 7 ∧
    delay ⟨.linear, .ofMillis (wordMax + 1), .ofMillis (wordMax + 1), false⟩ id 0 = ⟨0⟩ := by
  decide

end Backoff
end PingDelivery.Upload
