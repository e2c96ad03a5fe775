import PingDelivery.Assembly
import PingDelivery.Proofs.Dict
import PingDelivery.Proofs.Json.Reading
import PingDelivery.Proofs.Time.Rfc3339
import Mathlib.Data.List.Forall2

/-! # What a payload says

A payload is one compact JSON document, and a reader gets back from it what the ping was assembled
from: `assemble_recovers`. Values are looked up by path (`Json.path?`), for then the order of members
is of no account. The metrics are the one part that is regrouped; `lookup_grouped` says that a value
stands under a type and an id exactly if a metric of that id has that type.
-/

namespace PingDelivery

/-! ## Looking up -/

/-- The value at the end of a path of member names. -/
def Json.path? (v : Json) (names : List String) : Option Json := names.foldlM Json.field? v

namespace Json

@[simp] theorem path?_nil (v : Json) : v.path? [] = some v := rfl

theorem path?_cons (v : Json) (k : String) (names : List String) :
    v.path? (k :: names) = (v.field? k).bind fun w => w.path? names := rfl

@[simp] theorem path?_singleton (v : Json) (k : String) : v.path? [k] = v.field? k := by
  rw [path?_cons]
  cases v.field? k <;> rfl

theorem path?_append (v : Json) (names names' : List String) :
    v.path? (names ++ names') = (v.path? names).bind fun w => w.path? names' := List.foldlM_append

@[simp] theorem field?_nil (k : String) : (Json.obj []).field? k = none := rfl

@[simp] theorem field?_cons (k k' : String) (v : Json) (l : List (String × Json)) :
    (Json.obj ((k', v) :: l)).field? k = if k' = k then some v else (Json.obj l).field? k := by
  by_cases h : k' = k <;> simp [field?, h]

theorem field?_entries {β : Type} (f : β → Json) (l : List (String × β)) (k : String) :
    (Json.obj (l.map fun p => (p.1, f p.2))).field? k = (Dict.find k l).map f := by
  induction l with
  | nil => rfl
  | cons p l ih =>
    rw [List.map_cons, field?_cons, Dict.find, ih]
    by_cases h : p.1 = k
    · rw [if_pos h, if_pos h.symm, Option.map_some]
    · rw [if_neg h, if_neg (Ne.symm h)]

@[simp] theorem field?_append (k : String) (l l' : List (String × Json)) :
    (Json.obj (l ++ l')).field? k = ((Json.obj l).field? k).or ((Json.obj l').field? k) := by
  induction l with
  | nil => rfl
  | cons p l ih =>
    rw [List.cons_append, field?_cons, field?_cons, ih]
    split <;> rfl

@[simp] theorem field?_optional (k k' : String) (v : Option Json) :
    (Json.obj (optional k' v)).field? k = if k' = k then v else none := by
  cases v with
  | none => exact (ite_self none).symm
  | some v => exact field?_cons k k' v []

end Json

/-! ## The groups of metrics -/

namespace Metric

/-- The metric behind a value that stands in a group. -/
def ofContent? : String → Json → Option Metric
  | "counter", .int n => some (counter (Int64.ofInt n))
  | "quantity", .int n => some (quantity (Int64.ofInt n))
  | "boolean", .bool b => some (boolean b)
  | "string", .str s => some (string s)
  | "string_list", .arr l => (l.mapM Json.str?).map stringList
  | _, _ => none

theorem ofContent?_content (m : Metric) : ofContent? m.typeName m.content = some m := by
  cases m with
  | counter n => exact congrArg (fun n => some (counter n)) (Int64.ofInt_toInt n)
  | quantity n => exact congrArg (fun n => some (quantity n)) (Int64.ofInt_toInt n)
  | boolean b => rfl
  | string s => rfl
  | stringList l =>
    have htexts : (l.map Json.str).mapM Json.str? = some l := by
      rw [List.mapM_map]
      exact List.mapM_pure.trans (congrArg some (List.map_id l))
    exact congrArg (Option.map stringList) htexts

theorem eq_of_content {m m' : Metric} (ht : m.typeName = m'.typeName) (hc : m.content = m'.content) :
    m = m' :=
  Option.some.inj (by rw [← ofContent?_content m, ht, hc, ofContent?_content])

/-- The metric of a type's value, where there is one: what a group shows of an id. -/
def shown (group : String) (m : Option Metric) : Option Json :=
  (m.filter fun m => m.typeName = group).map content

@[simp] theorem shown_none (group : String) : shown group none = none := rfl

theorem shown_some (group : String) (m : Metric) :
    shown group (some m) = if m.typeName = group then some m.content else none := by
  rw [shown, Option.filter_some]
  by_cases h : m.typeName = group <;> simp [h]

theorem eq_some_of_shown {x : Option Metric} {m : Metric}
    (h : ∀ group, shown group (some m) = shown group x) : x = some m := by
  have hm := h m.typeName
  rw [shown_some, if_pos rfl] at hm
  cases x with
  | none => cases hm
  | some m' =>
    rw [shown_some] at hm
    split at hm
    · rename_i ht
      rw [eq_of_content ht (Option.some.inj hm).symm]
    · cases hm

/-- What the groups show of an id determines its metric. -/
theorem eq_of_shown {x y : Option Metric} (h : ∀ group, shown group x = shown group y) : x = y := by
  cases x with
  | some m => exact (eq_some_of_shown h).symm
  | none =>
    cases y with
    | none => rfl
    | some m => exact eq_some_of_shown fun group => (h group).symm

end Metric

namespace Assembly

/-- Puts one metric into the group of its type. -/
def regroup (groups : Dict (Dict Json)) (id : String) (m : Metric) : Dict (Dict Json) :=
  groups.insert m.typeName (((groups.get? m.typeName).getD .empty).insert id m.content)

/-- The value of an id within a group. -/
def lookup (groups : Dict (Dict Json)) (group id : String) : Option Json :=
  (groups.get? group).bind (·.get? id)

theorem lookup_regroup (groups : Dict (Dict Json)) (group id k : String) (m : Metric) :
    lookup (regroup groups id m) group k =
      if k = id ∧ m.typeName = group then some m.content else lookup groups group k := by
  rw [lookup, regroup, Dict.get?_insert]
  by_cases hg : group = m.typeName
  · subst hg
    rw [if_pos rfl, Option.bind_some, Dict.get?_insert, lookup]
    by_cases hk : k = id
    · rw [if_pos hk, if_pos ⟨hk, rfl⟩]
    · rw [if_neg hk, if_neg fun h => hk h.1]
      cases groups.get? m.typeName <;> rfl
  · rw [if_neg hg, if_neg fun h => hg h.2.symm, lookup]

theorem lookup_foldl (groups : Dict (Dict Json)) (group k : String) {l : List (String × Metric)}
    (hl : l.Pairwise fun a b => a.1 < b.1) :
    lookup (l.foldl (fun s p => regroup s p.1 p.2) groups) group k =
      (Metric.shown group (Dict.find k l)).or (lookup groups group k) := by
  induction l generalizing groups with
  | nil => rfl
  | cons p l ih =>
    obtain ⟨hp, hl⟩ := List.pairwise_cons.1 hl
    rw [List.foldl_cons, ih _ hl, lookup_regroup, Dict.find]
    by_cases hk : k = p.1
    · -- no later metric has this id
      rw [Dict.find_of_lt fun q hq => hk ▸ hp q hq, if_pos hk, Metric.shown_some]
      by_cases hg : p.2.typeName = group <;> simp [hk, hg]
    · rw [if_neg hk, if_neg fun h => hk h.1]

/-- **No metric is merged or lost**: under a type and an id stands the metric of that id, if that is its
type. -/
theorem lookup_grouped (metrics : Dict Metric) (group k : String) :
    lookup (grouped metrics) group k =
      Metric.shown group (metrics.get? k) :=
  (lookup_foldl .empty group k metrics.ascending).trans (Option.or_none)

theorem grouped_of_isEmpty {metrics : Dict Metric} (h : metrics.isEmpty = true) :
    grouped metrics = .empty := by
  rw [grouped, Dict.foldl, List.isEmpty_iff.1 h, List.foldl_nil]

/-- Every group has a metric in it. -/
theorem nonempty_grouped {metrics : Dict Metric} {group : String} {d : Dict Json}
    (h : (grouped metrics).get? group = some d) : d.isEmpty = false := by
  have hfold (l : List (String × Metric)) (groups : Dict (Dict Json))
      (hgroups : ∀ g d, groups.get? g = some d → d.isEmpty = false) (d : Dict Json)
      (hd : (l.foldl (fun s p => regroup s p.1 p.2) groups).get? group = some d) :
      d.isEmpty = false := by
    induction l generalizing groups with
    | nil => exact hgroups group d hd
    | cons p l ih =>
      refine ih _ (fun g e he => ?_) hd
      simp only [regroup, Dict.get?_insert] at he
      split at he
      · cases he
        exact Dict.isEmpty_insert _ _ _
      · exact hgroups g e he
  exact hfold metrics.entries .empty (fun g d hd => by cases hd) d h

end Assembly

/-! ## The document is compact -/

open Json

theorem Metric.writes_content {d : Nat} (m : Metric) : Writes (d + 2) m.content := by
  have hint (n : Int64) : Writes (d + 2) (.int n.toInt) :=
    writes_int n.le_toInt (lt_of_lt_of_le n.toInt_lt (by decide))
  cases m with
  | counter n => exact hint n
  | quantity n => exact hint n
  | boolean b => exact writes_bool b
  | string s => exact writes_str s
  | stringList l =>
    refine writes_arr fun v hv => ?_
    obtain ⟨s, -, rfl⟩ := List.mem_map.1 hv
    exact writes_str s

/-- A dictionary is written as an object: its keys differ. -/
theorem writes_entries {β : Type} {d : Nat} {f : β → Json} (e : Dict β)
    (h : ∀ p ∈ e.entries, Writes d (f p.2)) :
    Writes (d + 1) (.obj (e.entries.map fun p => (p.1, f p.2))) := by
  refine writes_obj ?_ fun m hm => ?_
  · rw [List.map_map]
    exact e.nodup_keys
  · obtain ⟨p, hp, rfl⟩ := List.mem_map.1 hm
    exact h p hp

theorem writes_optional {d : Nat} {name : String} {v : Option Json} (h : ∀ w ∈ v, Writes d w) :
    ∀ m ∈ optional name v, Writes d m.2 := by
  cases v with
  | none => exact fun m hm => absurd hm List.not_mem_nil
  | some w =>
    intro m hm
    cases List.mem_singleton.1 hm
    exact h w rfl

theorem names_optional (name : String) (v : Option Json) :
    List.Sublist ((optional name v).map (·.1)) [name] := by
  cases v with
  | none => exact List.nil_sublist _
  | some w => exact List.Sublist.refl _

theorem unless_eq_optional (b : Bool) (name : String) (v : Json) :
    (if b then [] else [(name, v)]) = optional name (if b then none else some v) := by
  cases b <;> rfl

theorem Event.writes_json {d : Nat} (e : Event) : Writes (d + 3) e.json := by
  rw [json, unless_eq_optional]
  refine writes_obj ?_ ?_
  · rw [List.map_append]
    have hnames : (["timestamp", "category", "name"] ++ ["extra"]).Nodup := by decide
    exact hnames.sublist ((List.Sublist.refl _).append (names_optional _ _))
  · simp only [List.forall_mem_append, List.forall_mem_cons]
    refine ⟨⟨writes_int e.timestamp.le_toInt (lt_of_lt_of_le e.timestamp.toInt_lt (by decide)),
      writes_str _, writes_str _, fun m hm => absurd hm List.not_mem_nil⟩, writes_optional ?_⟩
    intro v hv
    split at hv
    · cases hv
    · cases hv
      exact writes_entries e.extra fun p _ => writes_str p.2

namespace Assembly

theorem writes_metricsJson {d : Nat} (metrics : Dict Metric) : Writes (d + 4) (metricsJson metrics) := by
  refine writes_entries (f := fun g : Dict Json => .obj g.entries) (grouped metrics) fun g hg => ?_
  refine writes_obj g.2.nodup_keys fun p hp => ?_
  have hlookup : lookup (grouped metrics) g.1 p.1 = some p.2 := by
    rw [lookup, Dict.mem_entries.1 hg, Option.bind_some, Dict.mem_entries.1 hp]
  rw [lookup_grouped] at hlookup
  obtain ⟨m, -, hm⟩ := Option.map_eq_some_iff.1 hlookup
  exact hm ▸ m.writes_content

theorem writes_pingInfo {d : Nat} (r : Request) (id : Uuid) (s : Snapshot) :
    Writes (d + 2) (pingInfo r id s) := by
  refine writes_obj ?_ ?_
  · rw [List.map_append]
    have hnames : (["ping_type", "document_id", "start_time", "end_time"] ++ ["reason"]).Nodup := by
      decide
    exact hnames.sublist ((List.Sublist.refl _).append (names_optional _ _))
  · simp only [List.forall_mem_append, List.forall_mem_cons]
    refine ⟨⟨writes_str _, writes_str _, writes_str _, writes_str _,
      fun m hm => absurd hm List.not_mem_nil⟩, writes_optional fun v hv => ?_⟩
    obtain ⟨s, -, rfl⟩ := Option.map_eq_some_iff.1 hv
    exact writes_str s

theorem writes_clientInfo {d : Nat} (r : Request) (c : Configuration) :
    Writes (d + 2) (clientInfo r c) := by
  refine writes_obj ?_ ?_
  · simp only [List.map_append]
    have hnames : (["application_id"] ++ ["client_id"] ++ ["app_channel"] ++
        ["telemetry_sdk_build"]).Nodup := by decide
    exact hnames.sublist ((((List.Sublist.refl _).append (names_optional _ _)).append
      (names_optional _ _)).append (List.Sublist.refl _))
  · simp only [List.forall_mem_append, List.forall_mem_cons]
    refine ⟨⟨⟨⟨writes_str _, fun m hm => absurd hm List.not_mem_nil⟩,
      writes_optional fun v hv => ?_⟩, writes_optional fun v hv => ?_⟩,
      writes_str _, fun m hm => absurd hm List.not_mem_nil⟩
    · obtain ⟨id, -, rfl⟩ := Option.map_eq_some_iff.1 hv
      exact writes_str id.text
    · obtain ⟨channel, -, rfl⟩ := Option.map_eq_some_iff.1 hv
      exact writes_str channel

theorem writes_document {d : Nat} (r : Request) (c : Configuration) (id : Uuid) (s : Snapshot) :
    Writes (d + 5) (document r c id s) := by
  rw [document, unless_eq_optional, unless_eq_optional]
  refine writes_obj ?_ ?_
  · simp only [List.map_append]
    have hnames : (["ping_info", "client_info"] ++ ["metrics"] ++ ["events"]).Nodup := by decide
    exact hnames.sublist
      (((List.Sublist.refl _).append (names_optional _ _)).append (names_optional _ _))
  · simp only [List.forall_mem_append, List.forall_mem_cons]
    refine ⟨⟨⟨writes_pingInfo r id s, writes_clientInfo r c, fun m hm => absurd hm List.not_mem_nil⟩,
      writes_optional fun v hv => ?_⟩, writes_optional fun v hv => ?_⟩
    · split at hv <;> cases hv
      exact writes_metricsJson s.metrics
    · split at hv <;> cases hv
      refine writes_arr fun v hv => ?_
      obtain ⟨e, -, rfl⟩ := List.mem_map.1 hv
      exact e.writes_json

end Assembly

/-! ## What is read back -/

/-- The event that a value tells of. -/
structure Event.ShownBy (e : Event) (v : Json) : Prop where
  timestamp : v.path? ["timestamp"] = some (.int e.timestamp.toInt)
  category : v.path? ["category"] = some (.str e.category)
  name : v.path? ["name"] = some (.str e.name)
  extra : ∀ k, v.path? ["extra", k] = (e.extra.get? k).map .str
  extra_absent : v.path? ["extra"] = none ↔ e.extra.isEmpty = true

theorem Event.shownBy_json (e : Event) : e.ShownBy e.json := by
  have hextra : e.json.path? ["extra"] =
      if e.extra.isEmpty then none else some (extraJson e.extra) := by
    simp [json, unless_eq_optional]
  refine ⟨?_, ?_, ?_, fun k => ?_, ?_⟩
  · simp [json, unless_eq_optional]
  · simp [json, unless_eq_optional]
  · simp [json, unless_eq_optional]
  · rw [show ["extra", k] = ["extra"] ++ [k] from rfl, path?_append, hextra]
    split
    · rename_i h
      rw [Dict.get?_of_isEmpty h]
      rfl
    · exact (path?_singleton _ k).trans (field?_entries .str e.extra.entries k)
  · rw [hextra]
    split <;> simp_all

/-- A value tells of one event at most. -/
theorem Event.ShownBy.unique {e e' : Event} {v : Json} (h : e.ShownBy v) (h' : e'.ShownBy v) :
    e = e' := by
  have htimestamp : e.timestamp = e'.timestamp :=
    Int64.toInt_inj.1 (Json.int.inj (Option.some.inj (h.timestamp.symm.trans h'.timestamp)))
  have hcategory : e.category = e'.category :=
    Json.str.inj (Option.some.inj (h.category.symm.trans h'.category))
  have hname : e.name = e'.name := Json.str.inj (Option.some.inj (h.name.symm.trans h'.name))
  have hextra : e.extra = e'.extra := Dict.ext_get? fun k =>
    Option.map_injective (fun _ _ => Json.str.inj) ((h.extra k).symm.trans (h'.extra k))
  cases e
  cases e'
  cases htimestamp
  cases hcategory
  cases hname
  cases hextra
  rfl

namespace Assembly

/-- The time stands there in milliseconds, the rest cut off, and a reader of times has it from there. -/
structure Dated (v : Option Json) (t : Time.Instant) : Prop where
  text : v = some (.str (Time.Rfc3339.writeMillis t))
  read : Time.Rfc3339.read? (Time.Rfc3339.writeMillis t) = some t.wholeMillis.settled

theorem Dated.of_text {v : Option Json} {t : Time.Instant}
    (h : v = some (.str (Time.Rfc3339.writeMillis t))) : Dated v t :=
  ⟨h, Time.Rfc3339.read?_writeMillis t⟩

/-- What a document tells, by path. A part that was not given has no member; a member without a
metric or event behind it is not there. -/
structure Recovers (r : Request) (c : Configuration) (id : Uuid) (s : Snapshot) (j : Json) : Prop where
  pingType : j.path? ["ping_info", "ping_type"] = some (.str r.documentType)
  documentId : j.path? ["ping_info", "document_id"] = some (.str id.text)
  startTime : Dated (j.path? ["ping_info", "start_time"]) s.startTime
  endTime : Dated (j.path? ["ping_info", "end_time"]) s.endTime
  reason : j.path? ["ping_info", "reason"] = r.reason.map .str
  applicationId : j.path? ["client_info", "application_id"] = some (.str c.applicationId)
  clientId : j.path? ["client_info", "client_id"] = r.clientId.map fun id => .str id.text
  channel : j.path? ["client_info", "app_channel"] = c.channel.map .str
  /-- Under a type and an id: the metric of that id, if it has that type. -/
  metrics : ∀ group k, j.path? ["metrics", group, k] =
    Metric.shown group (s.metrics.get? k)
  groups : ∀ group v, j.path? ["metrics", group] = some v → ∃ l, v = .obj l ∧ l ≠ []
  metrics_absent : j.path? ["metrics"] = none ↔ s.metrics.isEmpty = true
  events : s.events ≠ [] →
    ∃ l, j.path? ["events"] = some (.arr l) ∧ List.Forall₂ Event.ShownBy s.events l
  events_absent : j.path? ["events"] = none ↔ s.events = []

section
variable {r r' : Request} {c c' : Configuration} {id id' : Uuid} {s s' : Snapshot} {j j' : Json}

theorem document_eq : document r c id s =
    .obj ([("ping_info", pingInfo r id s), ("client_info", clientInfo r c)] ++
      optional "metrics" (if s.metrics.isEmpty then none else some (metricsJson s.metrics)) ++
      optional "events" (if s.events.isEmpty then none else some (.list Event.json s.events))) := by
  rw [document, unless_eq_optional, unless_eq_optional]

theorem path?_pingInfo (k : String) :
    (document r c id s).path? ["ping_info", k] = (pingInfo r id s).field? k := by
  simp [document_eq, path?_cons]

theorem path?_clientInfo (k : String) :
    (document r c id s).path? ["client_info", k] = (clientInfo r c).field? k := by
  simp [document_eq, path?_cons]

theorem path?_metrics : (document r c id s).path? ["metrics"] =
    if s.metrics.isEmpty then none else some (metricsJson s.metrics) := by
  simp [document_eq]

theorem path?_events : (document r c id s).path? ["events"] =
    if s.events.isEmpty then none else some (.list Event.json s.events) := by
  simp [document_eq]

theorem path?_group (group : String) : (document r c id s).path? ["metrics", group] =
    ((grouped s.metrics).get? group).map fun g => .obj g.entries := by
  rw [show ["metrics", group] = ["metrics"] ++ [group] from rfl, path?_append, path?_metrics]
  split
  · rename_i h
    rw [grouped_of_isEmpty h]
    rfl
  · exact (path?_singleton _ group).trans (field?_entries (fun g : Dict Json => .obj g.entries) _ group)

theorem path?_metric (group k : String) : (document r c id s).path? ["metrics", group, k] =
    Metric.shown group (s.metrics.get? k) := by
  rw [show ["metrics", group, k] = ["metrics", group] ++ [k] from rfl, path?_append, path?_group,
    ← lookup_grouped, lookup]
  cases (grouped s.metrics).get? group with
  | none => rfl
  | some g =>
    have hentries := field?_entries (fun v : Json => v) g.entries k
    simp only [List.map_id', Option.map_id'] at hentries
    exact (path?_singleton _ k).trans hentries

theorem recovers_document : Recovers r c id s (document r c id s) where
  pingType := by simp [path?_pingInfo, pingInfo]
  documentId := by simp [path?_pingInfo, pingInfo]
  startTime := .of_text (by simp [path?_pingInfo, pingInfo])
  endTime := .of_text (by simp [path?_pingInfo, pingInfo])
  reason := by simp [path?_pingInfo, pingInfo]
  applicationId := by simp [path?_clientInfo, clientInfo]
  clientId := by simp [path?_clientInfo, clientInfo]
  channel := by simp [path?_clientInfo, clientInfo]
  metrics := path?_metric
  groups group v hv := by
    rw [path?_group] at hv
    obtain ⟨g, hg, rfl⟩ := Option.map_eq_some_iff.1 hv
    exact ⟨g.entries, rfl, List.isEmpty_eq_false_iff.1 (nonempty_grouped hg)⟩
  metrics_absent := by
    rw [path?_metrics]
    split <;> simp_all
  events h := by
    rw [path?_events, if_neg (by simpa using h)]
    refine ⟨_, rfl, List.forall₂_map_right_iff.2 (List.forall₂_same.2 fun e _ => e.shownBy_json)⟩
  events_absent := by
    rw [path?_events]
    split <;> simp_all

theorem Recovers.metrics_eq (h : Recovers r c id s j) (h' : Recovers r' c' id' s' j')
    (hsame : j.path? ["metrics"] = j'.path? ["metrics"]) : s.metrics = s'.metrics := by
  have hlookup (group k : String) :
      Metric.shown group (s.metrics.get? k) =
        Metric.shown group (s'.metrics.get? k) := by
    rw [← h.metrics, ← h'.metrics]
    change j.path? (["metrics"] ++ [group, k]) = j'.path? (["metrics"] ++ [group, k])
    rw [path?_append, path?_append, hsame]
  exact Dict.ext_get? fun k => Metric.eq_of_shown fun group => hlookup group k

theorem Recovers.events_eq (h : Recovers r c id s j) (h' : Recovers r' c' id' s' j')
    (hsame : j.path? ["events"] = j'.path? ["events"]) : s.events = s'.events := by
  by_cases hs : s.events = []
  · rw [hs, h'.events_absent.1 (hsame ▸ h.events_absent.2 hs)]
  · have hs' : s'.events ≠ [] := fun hs' => hs (h.events_absent.1 (hsame ▸ h'.events_absent.2 hs'))
    obtain ⟨l, hl, hshown⟩ := h.events hs
    obtain ⟨l', hl', hshown'⟩ := h'.events hs'
    cases (hl.symm.trans (hsame.trans hl') : some (Json.arr l) = some (.arr l'))
    have hunique : Relator.LeftUnique Event.ShownBy := fun _ _ _ => Event.ShownBy.unique
    exact List.left_unique_forall₂' hunique hshown hshown'

end

/-! ## Payloads -/

theorem eq_ping_of_assemble {r : Request} {c : Configuration} {s : Snapshot}
    {limit : Nat} {fresh : Uuid} {now : Time.Instant} {p : Ping} {drew : Bool}
    (h : assemble r c s limit fresh now = (.ok p, drew)) : p = ping r c s fresh now := by
  unfold assemble sized at h
  split at h
  · cases h
  · split at h <;> cases h
    rfl

/-- The bytes are one compact JSON document and nothing else, and a reader gives this value for it. -/
def Shows (payload : Bytes) (j : Json) : Prop :=
  ∃ text : String, payload = Bytes.ofText text ∧ Compact Reader.maxDepth text.toList j ∧
    Json.read text = .ok j

/-- A payload shows one value at most. -/
theorem Shows.unique {payload : Bytes} {j j' : Json} (h : Shows payload j) (h' : Shows payload j') :
    j = j' := by
  obtain ⟨t, ht, -, hread⟩ := h
  obtain ⟨t', ht', -, hread'⟩ := h'
  have htext : t = t' := Option.some.inj (by
    rw [← Bytes.text?_ofText t, ← Bytes.text?_ofText t', ← ht, ← ht'])
  exact Except.ok.inj (hread.symm.trans (htext ▸ hread'))

theorem shows_document (r : Request) (c : Configuration) (id : Uuid) (s : Snapshot) :
    Shows (document r c id s).bytes (document r c id s) := by
  have hcompact : Compact Reader.maxDepth (document r c id s).chars (document r c id s) :=
    writes_document (d := 123) r c id s
  refine ⟨(document r c id s).write, rfl, ?_, read_of_compact hcompact⟩
  rw [Json.write, String.toList_ofList]
  exact hcompact

/-- **A payload tells all that was given to it.** It is one compact JSON document from which a reader
gets every metric, every event and every other part back, and so no two assemblies of differing metrics
show the same metrics, nor two of differing events the same events. -/
theorem assemble_recovers {r : Request} {c : Configuration} {s : Snapshot} {limit : Nat} {fresh : Uuid}
    {now : Time.Instant} {p : Ping} {drew : Bool}
    (h : assemble r c s limit fresh now = (.ok p, drew)) :
    ∃ j, Shows p.payload j ∧ Recovers r c p.id s j ∧
      ∀ {r' : Request} {c' : Configuration} {s' : Snapshot} {limit' : Nat} {fresh' : Uuid}
        {now' : Time.Instant} {p' : Ping} {drew' : Bool} {j' : Json},
        assemble r' c' s' limit' fresh' now' = (.ok p', drew') → Shows p'.payload j' →
          (j.path? ["metrics"] = j'.path? ["metrics"] → s.metrics = s'.metrics) ∧
          (j.path? ["events"] = j'.path? ["events"] → s.events = s'.events) := by
  have hp := eq_ping_of_assemble h
  subst hp
  refine ⟨document r c fresh s, shows_document r c fresh s, recovers_document, ?_⟩
  intro r' c' s' limit' fresh' now' p' drew' j' h' hj'
  have hp' := eq_ping_of_assemble h'
  subst hp'
  have hdocument : j' = document r' c' fresh' s' := hj'.unique (shows_document r' c' fresh' s')
  subst hdocument
  exact ⟨recovers_document.metrics_eq recovers_document,
    recovers_document.events_eq recovers_document⟩

/-! ### An assembled ping -/

theorem sendable_agent : Sendable "agent" := by decide

def smallConfiguration : Configuration :=
  ⟨"app", ⟨true, [], .domain ['a'], none, [], none, none⟩, "agent", some "beta", 1, false, none,
    sendable_agent, Nat.one_pos⟩

theorem representable_second : Time.Representable 1 1234567 := by decide

def smallSnapshot : Snapshot :=
  ⟨Dict.empty.insert "\"opened\"" (.counter (-3)),
    [⟨-1, "ui", "click\n", Dict.empty.insert "button" "\u0001\\é"⟩],
    ⟨1, 1234567, representable_second⟩, ⟨1, 1234567, representable_second⟩⟩

def smallRequest : Request := ⟨"metrics", none, some (.drawn 7)⟩

theorem assemble_small : assemble smallRequest smallConfiguration smallSnapshot 4000 (.drawn 3)
    ⟨1, 1234567, representable_second⟩ =
      (.ok (ping smallRequest smallConfiguration smallSnapshot (.drawn 3)
        ⟨1, 1234567, representable_second⟩), true) := by
  have hchars : (document smallRequest smallConfiguration (.drawn 3) smallSnapshot).chars.length ≤
      1000 := by decide +kernel
  have hfits := (Bytes.length_ofText_le _).trans (Nat.mul_le_mul_left 4 hchars)
  have hrefusal : refusal? smallRequest smallSnapshot = none := by decide
  rw [assemble, hrefusal]
  exact congrArg (·, true) (if_neg (Nat.not_lt.2 hfits))

/-- The payload of a ping with a metric, an event and texts that are escaped. -/
theorem small_recovers : ∃ j, Shows (ping smallRequest smallConfiguration smallSnapshot (.drawn 3)
      ⟨1, 1234567, representable_second⟩).payload j ∧
    Recovers smallRequest smallConfiguration (.drawn 3) smallSnapshot j ∧
    j.path? ["metrics", "counter", "\"opened\""] = some (.int (-3)) := by
  obtain ⟨j, hshows, hrecovers, -⟩ := assemble_recovers assemble_small
  exact ⟨j, hshows, hrecovers, (hrecovers.metrics "counter" "\"opened\"").trans rfl⟩

end Assembly

end PingDelivery
