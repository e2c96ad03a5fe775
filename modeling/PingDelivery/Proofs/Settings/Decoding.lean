import Mathlib.Data.List.Induction
import Mathlib.Data.List.Nodup
import PingDelivery.Settings.Decode

/-! # What a settings document says

A record is decoded member by member, each putting its value over what was there. What comes of it can be
said field by field: a field is what is said of it last, and the default where nothing is said. A list of
values says the same as an object with the names of the fields in their order.
-/

namespace PingDelivery.Settings

namespace Decode
variable {α β : Type} {d : Dialect} {setters : List (Setter α)} {start a a' : α} {v : Json}
  {name : String} {place : Nat} {decode : Decoder β} {get : α → β}

/-- What a tree says of a field, in an object the last that is said under its name. -/
def mention (name : String) (place : Nat) : Json → Option Json
  | .obj ms => (ms.reverse.find? (·.1 == name)).map (·.2)
  | .arr vs => vs[place]?
  | _ => none

/-- A value is what is said of it, or else what it was before. -/
def Told (decode : Decoder β) (said : Option Json) (before after : β) : Prop :=
  match said with
  | some v => decode v = some after
  | none => after = before

def Keeps (get : α → β) (s : Setter α) : Prop := ∀ v a a', s.2 v a = some a' → get a' = get a

@[simp] theorem setter_name {γ : Type} (decode : Decoder γ) (put : γ → α → α) :
    (setter name decode put).1 = name := rfl

theorem keeps_setter {γ : Type} {decode : Decoder γ} {put : γ → α → α}
    (h : ∀ b a, get (put b a) = get a) : Keeps get (setter name decode put) := by
  intro v a a' hset
  obtain ⟨b, -, rfl⟩ := Option.map_eq_some_iff.1 hset
  exact h b a

/-- A field that one of the setters of a record is for, and no other. -/
structure Owns (setters : List (Setter α)) (name : String) (place : Nat) (decode : Decoder β)
    (get : α → β) : Prop where
  distinct : (setters.map (·.1)).Nodup
  own : ∃ put, setters[place]? = some (setter name decode put) ∧ ∀ b a, get (put b a) = b
  others : ∀ s ∈ setters, s.1 = name ∨ Keeps get s

theorem eq_of_mem (hdistinct : (setters.map (·.1)).Nodup) {s s' : Setter α} (hs : s ∈ setters)
    (hs' : s' ∈ setters) (h : s.1 = s'.1) : s = s' :=
  List.inj_on_of_nodup_map hdistinct hs hs' h

/-- A setter does to the field what its name says. -/
theorem Owns.told_setter (h : Owns setters name place decode get) {s : Setter α} (hs : s ∈ setters)
    (hset : s.2 v a = some a') :
    Told decode (if s.1 = name then some v else none) (get a) (get a') := by
  split
  · rename_i hname
    obtain ⟨put, hput, hget⟩ := h.own
    have hown := List.mem_of_getElem? hput
    rw [eq_of_mem h.distinct hs hown hname] at hset
    obtain ⟨b, hb, rfl⟩ := Option.map_eq_some_iff.1 hset
    rw [Told, hget]
    exact hb
  · rename_i hname
    exact (h.others s hs).resolve_left hname v a a' hset

theorem mention_concat (ms : List (String × Json)) (m : String × Json) (name : String) (place : Nat) :
    mention name place (.obj (ms ++ [m])) =
      if m.1 = name then some m.2 else mention name place (.obj ms) := by
  simp only [mention, List.reverse_concat, List.find?_cons, beq_eq_decide]
  by_cases h : m.1 = name
  · simp [h]
  · simp [h]

/-- **A field of an object is what is said of it last.** -/
theorem Owns.told_obj (h : Owns setters name place decode get) {ms : List (String × Json)}
    (hr : record d setters start (.obj ms) = some a) :
    Told decode (mention name place (.obj ms)) (get start) (get a) := by
  induction ms using List.reverseRecOn generalizing a with
  | nil =>
    cases hr
    rfl
  | append_singleton ms m ih =>
    simp only [record, List.foldlM_append, List.foldlM_cons, List.foldlM_nil] at hr
    obtain ⟨a', ha', hm⟩ := Option.bind_eq_some_iff.1 hr
    rw [bind_pure] at hm
    have hbefore := ih ha'
    -- the last member is about this field, about another one or about none
    rw [mention_concat]
    split at hm
    · rename_i s hs
      have hname : s.1 = m.1 := by simpa using List.find?_some hs
      have hset := h.told_setter (List.mem_of_find?_eq_some hs) hm
      rw [hname] at hset
      split
      · rename_i hm
        rwa [if_pos hm] at hset
      · rename_i hm
        rw [if_neg hm] at hset
        rw [show get a = get a' from hset]
        exact hbefore
    · rename_i hnone
      cases hm
      have hname : m.1 ≠ name := by
        intro hname
        obtain ⟨put, hput, -⟩ := h.own
        exact List.find?_eq_none.1 hnone _ (List.mem_of_getElem? hput) (beq_iff_eq.2 hname.symm)
      rw [if_neg hname]
      exact hbefore

/-! ## Lists of values -/

theorem find?_setter (hdistinct : (setters.map (·.1)).Nodup) {s : Setter α} (hs : s ∈ setters) :
    setters.find? (·.1 == s.1) = some s := by
  cases hfind : setters.find? (·.1 == s.1) with
  | none => exact absurd (List.find?_eq_none.1 hfind s hs) (by simp)
  | some s' =>
    have hname : s'.1 = s.1 := by simpa using List.find?_some hfind
    rw [eq_of_mem hdistinct (List.mem_of_find?_eq_some hfind) hs hname]

theorem foldlM_zip (hdistinct : (setters.map (·.1)).Nodup) : ∀ {l : List (Setter α)} {vs : List Json}
    {start : α}, (∀ s ∈ l, s ∈ setters) → record d setters start (.obj ((l.map (·.1)).zip vs)) =
      (l.zip vs).foldlM (fun a p => p.1.2 p.2 a) start
  | [], _, _, _ => rfl
  | _ :: _, [], _, _ => rfl
  | s :: l, v :: vs, start, hl => by
    have hs := find?_setter hdistinct (hl s List.mem_cons_self)
    simp only [record, List.map_cons, List.zip_cons_cons, List.foldlM_cons, hs]
    congr 1
    funext a
    exact foldlM_zip hdistinct fun s' hs' => hl s' (List.mem_cons_of_mem _ hs')

/-- A list is read as an object with the names in their order. -/
theorem record_arr (hdistinct : (setters.map (·.1)).Nodup) {vs : List Json}
    (h : record d setters start (.arr vs) = some a) :
    record d setters start (.obj ((setters.map (·.1)).zip vs)) = some a := by
  rw [foldlM_zip hdistinct fun s hs => hs]
  simp only [record] at h
  split at h
  · cases h
  · exact h

theorem mention_zip : ∀ {names : List String} {vs : List Json} {place : Nat}, names.Nodup →
    names[place]? = some name → mention name place (.obj (names.zip vs)) = vs[place]?
  | [], _, _, _, hname => by cases hname
  | _ :: _, [], _, _, _ => rfl
  | n :: names, v :: vs, place, hnodup, hname => by
    obtain ⟨hn, hnodup⟩ := List.nodup_cons.1 hnodup
    simp only [mention, List.zip_cons_cons, List.reverse_cons, List.find?_append]
    cases place with
    | zero =>
      cases hname
      have hrest : (names.zip vs).reverse.find? (·.1 == name) = none := by
        refine List.find?_eq_none.2 fun p hp hp' => hn ?_
        have hmem := (List.of_mem_zip (List.mem_reverse.1 hp)).1
        rwa [beq_iff_eq.1 hp'] at hmem
      simp [hrest]
    | succ place =>
      have hne : n ≠ name := by
        rintro rfl
        exact hn (List.mem_of_getElem? hname)
      have ih : mention name place (.obj (names.zip vs)) = vs[place]? := mention_zip hnodup hname
      simp only [mention] at ih
      simp [hne, ih]

/-- **A field of a record is what is said of it**, and otherwise what the record starts with. -/
theorem Owns.told (get : α → β) (h : Owns setters name place decode get)
    (hr : record d setters start v = some a) :
    Told decode (mention name place v) (get start) (get a) := by
  cases v with
  | obj ms => exact h.told_obj hr
  | arr vs =>
    obtain ⟨put, hput, -⟩ := h.own
    have hname : (setters.map (·.1))[place]? = some name := by
      rw [List.getElem?_map, hput]
      rfl
    have htold := h.told_obj (record_arr h.distinct hr)
    rwa [mention_zip h.distinct hname] at htold
  | _ => cases hr

end Decode

/-! ## The fields of the settings -/

open Decode

/-- A field: the part of the settings that it is in, its name and its place there, and how it is written
in a document. -/
structure Field where
  Value : Type
  get : Settings → Value
  part : String × Nat
  name : String
  place : Nat
  decode : Decoder Value

namespace Field

def ofClient {β : Type} (get : ClientSettings → β) (name : String) (place : Nat)
    (decode : Decoder β) : Field :=
  ⟨β, fun s => get s.client, ("client", 0), name, place, decode⟩

def ofLifecycle {β : Type} (get : LifecycleSettings → β) (name : String) (place : Nat)
    (decode : Decoder β) : Field :=
  ⟨β, fun s => get s.lifecycle, ("lifecycle", 1), name, place, decode⟩

/-- What a document says of the field. -/
def said (f : Field) (doc : Json) : Option Json :=
  (mention f.part.1 f.part.2 doc).bind (mention f.name f.place)

/-- The field is what the document says of it, if there is one and it does, and the default otherwise. -/
def Given (f : Field) (doc : Option Json) (s : Settings) : Prop :=
  Told f.decode (doc.bind f.said) (f.get standard) (f.get s)

end Field

variable {doc : Json} {s : Settings} {β : Type} {name : String} {place : Nat} {decode : Decoder β}

/-- What holds of a field in its part holds of it in the document. -/
theorem told_of_part {γ : Type} {decodePart : Decoder γ} {v : Option Json} {c c' : γ} (get : γ → β)
    (hpart : Told decodePart v c c')
    (hfield : ∀ v, decodePart v = some c' → Told decode (mention name place v) (get c) (get c')) :
    Told decode (v.bind (mention name place)) (get c) (get c') := by
  cases v with
  | none => exact congrArg get hpart
  | some v => exact hfield v hpart

theorem told_client (h : Decode.settings .toml doc = some s) :
    Told (Decode.client .toml) (mention "client" 0 doc) ClientSettings.standard s.client :=
  Owns.told Settings.client ⟨by simp, ⟨_, rfl, fun _ _ => rfl⟩, by simp [keeps_setter]⟩ h

theorem told_lifecycle (h : Decode.settings .toml doc = some s) :
    Told (Decode.lifecycle .toml) (mention "lifecycle" 1 doc) LifecycleSettings.standard s.lifecycle :=
  Owns.told Settings.lifecycle ⟨by simp, ⟨_, rfl, fun _ _ => rfl⟩, by simp [keeps_setter]⟩ h

theorem given_ofClient {get : ClientSettings → β} (h : Decode.settings .toml doc = some s)
    (hfield : ∀ v c, Decode.client .toml v = some c →
      Told decode (mention name place v) (get .standard) (get c)) :
    (Field.ofClient get name place decode).Given (some doc) s :=
  told_of_part get (told_client h) fun v => hfield v s.client

theorem given_ofLifecycle {get : LifecycleSettings → β} (h : Decode.settings .toml doc = some s)
    (hfield : ∀ v c, Decode.lifecycle .toml v = some c →
      Told decode (mention name place v) (get .standard) (get c)) :
    (Field.ofLifecycle get name place decode).Given (some doc) s :=
  told_of_part get (told_lifecycle h) fun v => hfield v s.lifecycle

end PingDelivery.Settings
