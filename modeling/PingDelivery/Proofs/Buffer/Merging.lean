import PingDelivery.Buffer
import PingDelivery.Proofs.Dict

/-! # Windows that are put together

Putting a snapshot back works on each metric by itself: `get?_restore` says what becomes of it. Sums of
amounts that are not negative stay at the limit once they are there, so for such counters it does not
matter what was added first, even where they are full.
-/

namespace PingDelivery.Window

/-! ## Sums within 64 bits -/

theorem toInt_saturatingAdd_eq (a b : Int64) : (saturatingAdd a b).toInt =
    max (-0x8000000000000000) (min 0x7FFFFFFFFFFFFFFF (a.toInt + b.toInt)) := by
  unfold saturatingAdd
  dsimp only
  split
  · rename_i hlow
    have hmin : Int64.minValue.toInt = -0x8000000000000000 := by decide
    omega
  · split
    · rename_i hhigh
      have hmax : Int64.maxValue.toInt = 0x7FFFFFFFFFFFFFFF := by decide
      omega
    · rename_i hlow hhigh
      rw [Int64.toInt_ofInt_of_le (by omega) (by omega)]
      omega

theorem saturatingAdd_comm (a b : Int64) : saturatingAdd a b = saturatingAdd b a := by
  rw [← Int64.toInt_inj, toInt_saturatingAdd_eq, toInt_saturatingAdd_eq, Int.add_comm]

theorem saturatingAdd_nonneg {a b : Int64} (ha : 0 ≤ a.toInt) (hb : 0 ≤ b.toInt) :
    0 ≤ (saturatingAdd a b).toInt := by
  rw [toInt_saturatingAdd_eq]
  omega

theorem saturatingAdd_right_comm {a b c : Int64} (ha : 0 ≤ a.toInt) (hb : 0 ≤ b.toInt)
    (hc : 0 ≤ c.toInt) :
    saturatingAdd (saturatingAdd a b) c = saturatingAdd (saturatingAdd a c) b := by
  rw [← Int64.toInt_inj]
  simp only [toInt_saturatingAdd_eq]
  omega

/-! ## Putting back -/

/-- What is left of a metric when an older value is put back. -/
def merged (newer older : Option Metric) : Option Metric :=
  match newer, older with
  | none, o => o
  | some (.counter n), some (.counter o) => some (.counter (saturatingAdd n o))
  | some m, _ => some m

@[simp] theorem merged_none (newer : Option Metric) : merged newer none = newer := by
  cases newer with
  | none => rfl
  | some m => cases m <;> rfl

theorem merged_some_ne_none (m : Metric) (older : Option Metric) : merged (some m) older ≠ none := by
  cases older with
  | none => simp
  | some o => cases m <;> cases o <;> simp [merged]

theorem get?_putBack (d : Dict Metric) (id' : String) (older : Metric) (id : String) :
    (putBack d id' older).get? id =
      if id = id' then merged (d.get? id) (some older) else d.get? id := by
  by_cases hid : id = id'
  · subst hid
    rw [if_pos rfl]
    unfold putBack
    cases hd : d.get? id with
    | none => simp [merged]
    | some m => cases m <;> cases older <;> simp [merged, hd]
  · rw [if_neg hid]
    unfold putBack
    split <;> simp [hid]

theorem get?_foldl_putBack {l : List (String × Metric)} (hl : l.Pairwise fun p q => p.1 < q.1)
    (d : Dict Metric) (id : String) :
    (l.foldl (fun d p => putBack d p.1 p.2) d).get? id = merged (d.get? id) (Dict.find id l) := by
  induction l generalizing d with
  | nil => exact (merged_none _).symm
  | cons p l ih =>
    obtain ⟨hp, hl⟩ := List.pairwise_cons.1 hl
    rw [List.foldl_cons, ih hl, get?_putBack, Dict.find]
    split
    · rename_i hid
      rw [hid, Dict.find_of_lt hp, merged_none]
    · rfl

/-- Each metric is merged with its own older value and no other one. -/
theorem get?_restore (w : Window) (s : Snapshot) (id : String) :
    (w.restore s).metrics.get? id = merged (w.metrics.get? id) (s.metrics.get? id) :=
  get?_foldl_putBack s.metrics.ascending _ _

/-- A window is told by its metrics, its events and its start. -/
theorem ext_get? {w w' : Window} (hmetrics : ∀ id, w.metrics.get? id = w'.metrics.get? id)
    (hevents : w.events = w'.events) (hstart : w.startTime = w'.startTime) : w = w' := by
  have hdict : w.metrics = w'.metrics := Dict.ext_get? hmetrics
  cases w
  cases w'
  cases hdict
  cases hevents
  cases hstart
  rfl

end PingDelivery.Window
