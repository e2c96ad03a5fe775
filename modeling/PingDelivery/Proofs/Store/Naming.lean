import PingDelivery.Proofs.Store.FileSystem
import PingDelivery.Store.Directory
import Mathlib.Data.List.TakeWhile

/-! # The names of a directory's files

The name of a record's file gives its key back, and no name is that of a record and of a temporary
file at once. As all files stand directly below the directory, different names are different files.
-/

namespace PingDelivery.Store

theorem ValidKey.ne_empty {key : String} (h : ValidKey key) : key ≠ "" :=
  fun he => h.1 (by rw [he, String.toList_empty])

theorem ValidKey.not_mem {key : String} (h : ValidKey key) {c : Char} (hc : isKeyChar c = false) :
    c ∉ key.toList :=
  fun hmem => absurd (List.all_eq_true.1 h.2.2 c hmem) (by rw [hc]; decide)

namespace Directory

theorem eq_of_drop_takeWhile {α : Type} {p : α → Bool} {l r : List α} {a : α}
    (h : l.drop (l.takeWhile p).length = a :: r) : l = l.takeWhile p ++ a :: r ∧ p a = false := by
  induction l with
  | nil => simp at h
  | cons b l ih =>
    cases hb : p b with
    | true =>
      rw [List.takeWhile_cons_of_pos hb, List.length_cons, List.drop_succ_cons] at h
      obtain ⟨hl, ha⟩ := ih h
      refine ⟨?_, ha⟩
      rw [List.takeWhile_cons_of_pos hb, List.cons_append, ← hl]
    | false =>
      rw [List.takeWhile_cons_of_neg (by rw [hb]; exact Bool.false_ne_true)] at h ⊢
      cases h
      exact ⟨rfl, hb⟩

theorem splitName_eq_some {name stem ext : String} :
    splitName name = (stem, some ext) ↔
      name = stem ++ "." ++ ext ∧ stem ≠ "" ∧ '.' ∉ ext.toList := by
  constructor
  · intro h
    simp only [splitName] at h
    split at h
    · cases h
    · cases h
    · rename_i c r hne hdrop
      obtain ⟨hback, hc⟩ := eq_of_drop_takeWhile hdrop
      cases h
      cases of_decide_eq_false hc |> not_not.1
      refine ⟨?_, ?_, ?_⟩
      · rw [← String.toList_inj, ← List.reverse_inj]
        simpa using hback
      · intro hs
        refine hne (List.reverse_eq_nil_iff.1 ?_)
        rw [← String.toList_ofList (l := r.reverse), hs, String.toList_empty]
      · intro hmem
        rw [String.toList_ofList, List.mem_reverse] at hmem
        have hdot := List.mem_takeWhile_imp hmem
        simp at hdot
  · rintro ⟨rfl, hs, hx⟩
    have hback : (stem ++ "." ++ ext).toList.reverse =
        ext.toList.reverse ++ '.' :: stem.toList.reverse := by
      simp
    have htake : (stem ++ "." ++ ext).toList.reverse.takeWhile (fun c => decide (c ≠ '.')) =
        ext.toList.reverse := by
      rw [hback, List.takeWhile_append_of_pos, List.takeWhile_cons_of_neg (by simp), List.append_nil]
      intro a ha
      exact decide_eq_true fun he => hx (he ▸ List.mem_reverse.1 ha)
    have hstem : stem.toList.reverse ≠ [] := by
      simpa using hs
    simp only [splitName, htake]
    rw [hback, List.drop_left]
    split
    · rename_i h
      cases h
    · rename_i h
      exact absurd (List.cons.inj h).2 hstem
    · rename_i h
      cases h
      simp

def recordName (key : String) : String := key ++ "." ++ recordExtension

def temporaryName (key : String) : String := key ++ "." ++ temporaryExtension

theorem keyOf?_eq_some {name key : String} :
    keyOf? name = some key ↔ ValidKey key ∧ name = recordName key := by
  constructor
  · intro h
    unfold keyOf? at h
    cases hs : splitName name with
    | mk stem ext =>
      simp only [hs, Option.ite_none_right_eq_some, Option.some.injEq] at h
      obtain ⟨⟨rfl, hk⟩, rfl⟩ := h
      exact ⟨hk, (splitName_eq_some.1 hs).1⟩
  · rintro ⟨hk, rfl⟩
    have hs : splitName (recordName key) = (key, some recordExtension) :=
      splitName_eq_some.2 ⟨rfl, hk.ne_empty, by decide⟩
    simp only [keyOf?, hs]
    rw [if_pos ⟨trivial, hk⟩]

theorem isTemporary_iff {name : String} :
    isTemporary name = true ↔ ∃ stem, stem ≠ "" ∧ name = temporaryName stem := by
  rw [isTemporary, beq_iff_eq]
  constructor
  · intro h
    obtain ⟨hn, hs, -⟩ := splitName_eq_some.1 (Prod.ext rfl h : splitName name = (_, some _))
    exact ⟨_, hs, hn⟩
  · rintro ⟨stem, hs, rfl⟩
    have hsplit : splitName (temporaryName stem) = (stem, some temporaryExtension) :=
      splitName_eq_some.2 ⟨rfl, hs, by decide⟩
    rw [hsplit]

example : isTemporary ".tmp" = false ∧ isTemporary "a.b.tmp" = true := by decide +kernel

/-- Whether a name is that of a record. -/
def isRecord (name : String) : Bool := (keyOf? name).isSome

theorem isRecord_iff {name : String} :
    isRecord name = true ↔ ∃ k, ValidKey k ∧ name = recordName k := by
  rw [isRecord, Option.isSome_iff_exists]
  exact exists_congr fun _ => keyOf?_eq_some

theorem recordName_inj {k k' : String} : recordName k = recordName k' ↔ k = k' := by
  simp [recordName, ← String.toList_inj]
  
theorem temporaryName_inj {k k' : String} : temporaryName k = temporaryName k' ↔ k = k' := by
  simp [temporaryName, ← String.toList_inj]

/-- No temporary file passes for a record. -/
theorem recordName_ne_temporaryName (k k' : String) : recordName k ≠ temporaryName k' := by
  intro h
  have hl := congrArg (fun s => s.toList.reverse) h
  simp [recordName, temporaryName, recordExtension, temporaryExtension] at hl

theorem plain_recordName {k : String} (hk : ValidKey k) : Path.Plain (recordName k) := by
  refine ⟨?_, ?_⟩
  · simp [recordName]
  · have := hk.not_mem (c := '/') rfl
    simp [recordName, recordExtension, this]

theorem plain_temporaryName {k : String} (hk : ValidKey k) : Path.Plain (temporaryName k) := by
  refine ⟨?_, ?_⟩
  · simp [temporaryName]
  · have := hk.not_mem (c := '/') rfl
    simp [temporaryName, temporaryExtension, this]

theorem isTemporary_temporaryName {k : String} (hk : ValidKey k) :
    isTemporary (temporaryName k) = true := isTemporary_iff.2 ⟨k, hk.ne_empty, rfl⟩

theorem not_isTemporary_recordName (k : String) : isTemporary (recordName k) = false := by
  rw [Bool.eq_false_iff]
  intro h
  obtain ⟨stem, -, hs⟩ := isTemporary_iff.1 h
  exact recordName_ne_temporaryName k stem hs

theorem keyOf?_of_isTemporary {name : String} (h : isTemporary name = true) : keyOf? name = none := by
  cases hk : keyOf? name with
  | none => rfl
  | some key =>
    obtain ⟨-, rfl⟩ := keyOf?_eq_some.1 hk
    rw [not_isTemporary_recordName] at h
    cases h

variable {root : Path} {k k' : String}

theorem key_recordPath_inj :
    (recordPath root k).key = (recordPath root k').key ↔ k = k' :=
  Path.key_child_inj.trans recordName_inj

theorem key_temporaryPath_inj :
    (temporaryPath root k).key = (temporaryPath root k').key ↔ k = k' :=
  Path.key_child_inj.trans temporaryName_inj

theorem key_recordPath_ne_temporaryPath :
    (recordPath root k).key ≠ (temporaryPath root k').key :=
  fun h => recordName_ne_temporaryName k k' (Path.key_child_inj.1 h)

end Directory
end PingDelivery.Store
