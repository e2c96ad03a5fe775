import PingDelivery.Settings.Sources

/-! # Settings that pass and the configuration made from them

Settings are looked at twice: `Settings.validate` checks them when they are read, `Draft.build` when
a client is set up with them. What either asks for is said by `validate_eq_ok_iff` and
`build_eq_ok_iff`; apart from the lifecycle's part they ask for the same, but for the user agent, which
only the second one looks at.
-/

namespace PingDelivery

/-- The default user agent can be sent exactly if the version in it can. -/
theorem sendable_defaultUserAgent (version : String) : Sendable (defaultUserAgent version) ↔
    version.toList.all (!Text.isControl ·) = true := by
  have hprogram : (programName ++ "/").toList.all (!Text.isControl ·) = true := by decide
  have hsystem : (" (Rust on " ++ operatingSystem ++ ")").toList.all (!Text.isControl ·) = true := by
    decide
  simp only [String.toList_append, List.all_append, Bool.and_eq_true] at hprogram hsystem
  simp only [Sendable, defaultUserAgent, String.toList_append, List.all_append, Bool.and_eq_true,
    hprogram, hsystem, and_true, true_and]
  refine and_iff_right fun h => ?_
  simp only [List.append_eq_nil_iff] at h
  exact absurd h.1.1.1.1.1 (by decide)

namespace Configuration

/-! ## What building asks for -/

theorem text_of_parse {s : String} {t : Tag} (h : Tag.parse s = .ok t) : t.text = s := by
  unfold Tag.parse at h
  split at h
  · split at h
    · split at h <;> cases h
      rfl
    · cases h
  · cases h

theorem parseTag_eq_ok_iff {s : Option String} {t : Option Tag} :
    parseTag s = .ok t ↔ t.map (·.text) = s := by
  constructor
  · intro h
    unfold parseTag at h
    split at h
    · cases h
      rfl
    · split at h
      · rename_i hparse
        cases h
        exact congrArg some (text_of_parse hparse)
      · cases h
  · rintro rfl
    cases t with
    | none => rfl
    | some t => simp only [Option.map_some, parseTag, Tag.parse_text]

/-- The configuration shows what the draft asks for. -/
structure Draft.Shown (d : Draft) (c : Configuration) : Prop where
  applicationId : c.applicationId = d.applicationId
  endpoint : parseEndpoint d.endpoint = .ok c.endpoint
  agent : c.userAgent = d.userAgent.getD (defaultUserAgent d.version)
  channel : c.channel = d.channel
  maxEvents : c.maxEvents = d.maxEvents
  logPings : c.logPings = d.logPings
  tag : c.tag.map (·.text) = d.tag

/-- Drafts that pass all other checks are built exactly if their user agent can be sent. -/
theorem Draft.build_eq {d : Draft} {u : Url} {t : Option Tag}
    (hid : Text.allBlank d.applicationId = false) (hu : parseEndpoint d.endpoint = .ok u)
    (hm : 0 < d.maxEvents) (ht : t.map (·.text) = d.tag) :
    d.build = if ha : Sendable d.agent then
      .ok ⟨d.applicationId, u, d.agent, d.channel, d.maxEvents, d.logPings, t, ha, hm⟩
      else .error .unsendableUserAgent := by
  rw [build, if_neg (by rw [hid]; exact Bool.false_ne_true), hu]
  simp only [dif_pos hm, parseTag_eq_ok_iff.2 ht]

theorem Draft.build_eq_ok_iff {d : Draft} {c : Configuration} :
    d.build = .ok c ↔ Text.allBlank d.applicationId = false ∧ d.Shown c := by
  constructor
  · intro h
    unfold build at h
    split at h
    · cases h
    · rename_i hid
      split at h
      · cases h
      · rename_i u hu
        split at h
        · split at h
          · cases h
          · rename_i t ht
            split at h
            · cases h
              exact ⟨Bool.eq_false_iff.2 hid, rfl, hu, rfl, rfl, rfl, rfl, parseTag_eq_ok_iff.1 ht⟩
            · cases h
        · cases h
  · rintro ⟨hid, hshown⟩
    have hm : 0 < d.maxEvents := hshown.maxEvents ▸ c.maxEvents_pos
    have ha : Sendable d.agent := by
      rw [agent, ← hshown.agent]
      exact c.userAgent_sendable
    rw [build_eq hid hshown.endpoint hm hshown.tag, dif_pos ha]
    obtain ⟨id, u, a, channel, max, log, tag, hsendable, hpos⟩ := c
    obtain ⟨rfl, -, rfl, rfl, rfl, rfl, -⟩ := hshown
    rfl

end Configuration

namespace Settings
open PingDelivery.Configuration

/-! ## What the check asks for -/

/-- Where the client's fields are in order, the check comes to that of the lifecycle's part. -/
theorem validate_eq_check {s : Settings} {u : Url} {t : Option Tag}
    (hu : parseEndpoint s.client.serverEndpoint = .ok u) (hm : 0 < s.client.maxEvents)
    (ht : t.map (·.text) = s.client.tag) (hid : Text.allBlank s.client.applicationId = false) :
    s.validate = s.lifecycle.check := by
  rw [validate, hu, parseTag_eq_ok_iff.2 ht]
  simp only [bind, Except.bind, if_neg (Nat.ne_of_gt hm), hid, Bool.false_eq_true, if_false]
  cases s.lifecycle.check <;> rfl

theorem validate_eq_ok_iff {s : Settings} : s.validate = .ok () ↔
    (∃ u, parseEndpoint s.client.serverEndpoint = .ok u) ∧ 0 < s.client.maxEvents ∧
      (∃ t : Option Tag, t.map (·.text) = s.client.tag) ∧ s.lifecycle.check = .ok () ∧
        Text.allBlank s.client.applicationId = false := by
  constructor
  · intro h
    unfold validate at h
    simp only [bind, Except.bind] at h
    split at h
    · cases h
    · rename_i u hu
      split at h
      · cases h
      · rename_i hm
        split at h
        · cases h
        · rename_i t ht
          split at h
          · cases h
          · rename_i hcheck
            split at h
            · cases h
            · rename_i hid
              exact ⟨⟨u, hu⟩, Nat.pos_of_ne_zero hm, ⟨t, parseTag_eq_ok_iff.1 ht⟩, hcheck,
                Bool.eq_false_iff.2 hid⟩
  · rintro ⟨⟨u, hu⟩, hm, ⟨t, ht⟩, hcheck, hid⟩
    rw [validate_eq_check hu hm ht hid, hcheck]

/-! ## Settings that were read -/

/-- The settings come from a file or from the environment, or are written out. -/
inductive Accepted (s : Settings) : Prop where
  | loaded {file : Option SettingsFile} {env : Environment} (h : load file env = .ok s)
  | read {file : SettingsFile} (h : (ofFile file).bind validated = .ok s)
  | written {text : String} (h : (ofToml text).bind validated = .ok s)

theorem validate_of_validated {r s : Settings} (h : r.validated = .ok s) : s.validate = .ok () := by
  unfold validated at h
  split at h
  · rename_i hr
    cases h
    exact hr
  · cases h

theorem validate_of_bind {r : Except ConfigError Settings} {s : Settings}
    (h : r.bind validated = .ok s) : s.validate = .ok () := by
  cases r with
  | error e => cases h
  | ok r => exact validate_of_validated h

theorem validate_of_load {file : Option SettingsFile} {env : Environment} {s : Settings}
    (h : load file env = .ok s) : s.validate = .ok () := by
  have hstart (start : Except ConfigError Settings)
      (h : (start.bind fun r => (r.overridden env).bind validated) = .ok s) :
      s.validate = .ok () := by
    cases start with
    | error e => cases h
    | ok r => exact validate_of_bind h
  cases file with
  | none => exact hstart (.ok standard) h
  | some f => exact hstart (ofFile f) h

theorem Accepted.validate {s : Settings} (h : s.Accepted) : s.validate = .ok () := by
  cases h with
  | loaded h => exact validate_of_load h
  | read h => exact validate_of_bind h
  | written h => exact validate_of_bind h

/-! ## The two checks side by side -/

theorem configuration_of_validate {s : Settings} {version : String} (h : s.validate = .ok ())
    (ha : Sendable (s.draft version).agent) :
    ∃ c, s.configuration version = .ok c ∧ (s.draft version).Shown c := by
  obtain ⟨⟨u, hu⟩, hm, ⟨t, ht⟩, -, hid⟩ := validate_eq_ok_iff.1 h
  have hbuild := Draft.build_eq (d := s.draft version) hid hu hm ht
  rw [dif_pos ha] at hbuild
  exact ⟨_, hbuild, (Draft.build_eq_ok_iff.1 hbuild).2⟩

theorem configuration_of_unsendable {s : Settings} {version : String} (h : s.validate = .ok ())
    (ha : ¬ Sendable (s.draft version).agent) :
    s.configuration version = .error .unsendableUserAgent := by
  obtain ⟨⟨u, hu⟩, hm, ⟨t, ht⟩, -, hid⟩ := validate_eq_ok_iff.1 h
  rw [configuration, Draft.build_eq (d := s.draft version) hid hu hm ht, dif_neg ha]

theorem validate_of_configuration {s : Settings} {version : String} {c : Configuration}
    (h : s.configuration version = .ok c) : s.validate = s.lifecycle.check := by
  obtain ⟨hid, hshown⟩ := Draft.build_eq_ok_iff.1 h
  have hmax : c.maxEvents = s.client.maxEvents := hshown.maxEvents
  exact validate_eq_check hshown.endpoint (hmax ▸ c.maxEvents_pos) hshown.tag hid

/-- **Settings that pass make a configuration, but for a user agent that cannot be sent.** -/
theorem accepted_settings_configure {s : Settings} {version : String}
    (hversion : version.toList.all (!Text.isControl ·) = true) :
    (s.Accepted → s.validate = .ok ()) ∧
    (s.validate = .ok () → (∀ a, s.client.userAgent = some a → Sendable a) →
      ∃ c, s.configuration version = .ok c ∧ (s.draft version).Shown c) ∧
    (s.validate = .ok () → (∃ a, s.client.userAgent = some a ∧ ¬ Sendable a) →
      s.configuration version = .error .unsendableUserAgent) ∧
    ∀ c, s.configuration version = .ok c →
      (s.draft version).Shown c ∧ s.validate = s.lifecycle.check := by
  refine ⟨Accepted.validate, fun h ha => configuration_of_validate h ?_, fun h ha => ?_,
    fun c h => ⟨(Draft.build_eq_ok_iff.1 h).2, validate_of_configuration h⟩⟩
  · change Sendable (s.client.userAgent.getD _)
    cases hagent : s.client.userAgent with
    | none => exact (sendable_defaultUserAgent version).2 hversion
    | some a => exact ha a hagent
  · obtain ⟨a, hagent, ha⟩ := ha
    refine configuration_of_unsendable h ?_
    change ¬ Sendable (s.client.userAgent.getD _)
    rw [hagent]
    exact ha

/-! ## A settings file that names little -/

theorem eq_ok_of_toOption {ε α : Type} {x : Except ε α} {a : α} (h : x.toOption = some a) :
    x = .ok a := by
  cases x with
  | error e => cases h
  | ok b => exact congrArg Except.ok (Option.some.inj h)

/-- The settings of an application that names itself and at most its user agent. -/
def ofAgent (userAgent : Option String) : Settings :=
  { standard with client := { ClientSettings.standard with applicationId := "app", userAgent } }

theorem parseEndpoint_default : parseEndpoint defaultEndpoint =
    .ok ⟨true, [], .domain "incoming.telemetry.mozilla.org".toList, none, [[]], none, none⟩ :=
  eq_ok_of_toOption (by decide +kernel)

theorem check_standard : LifecycleSettings.standard.check = .ok () := by
  rfl

theorem validated_ofAgent (userAgent : Option String) :
    (ofAgent userAgent).validated = .ok (ofAgent userAgent) := by
  have hm : 0 < ClientSettings.standard.maxEvents := by decide
  have hid : Text.allBlank "app" = false := by decide
  have hvalidate : (ofAgent userAgent).validate = .ok () :=
    validate_eq_ok_iff.2 ⟨⟨_, parseEndpoint_default⟩, hm, ⟨none, rfl⟩, check_standard, hid⟩
  rw [validated, hvalidate]

theorem ofToml_id : ofToml "[client]\napplication_id = \"app\"" = .ok (ofAgent none) :=
  eq_ok_of_toOption (by decide +kernel)

theorem ofToml_blankAgent :
    ofToml "[client]\napplication_id = \"app\"\nuser_agent = \"\"" = .ok (ofAgent (some "")) :=
  eq_ok_of_toOption (by decide +kernel)

/-- A file with nothing but an application id is enough. -/
theorem id_configures : (ofAgent none).Accepted ∧ "1.0.0".toList.all (!Text.isControl ·) = true ∧
    ∃ c, (ofAgent none).configuration "1.0.0" = .ok c ∧ c.applicationId = "app" ∧
      c.userAgent = "ping-lifecycle/1.0.0 (Rust on linux)" ∧ c.maxEvents = 500 := by
  have haccepted : (ofAgent none).Accepted :=
    .written ((congrArg (Except.bind · validated) ofToml_id).trans (validated_ofAgent none))
  obtain ⟨hvalidate, hconfigure, -, -⟩ :=
    @accepted_settings_configure (ofAgent none) "1.0.0" (by decide)
  obtain ⟨c, hc, hshown⟩ := hconfigure (hvalidate haccepted) fun a ha => by cases ha
  exact ⟨haccepted, by decide, c, hc, hshown.applicationId, hshown.agent.trans (by decide),
    hshown.maxEvents⟩

/-- A file with an empty user agent is accepted, and no client can be set up with it. -/
theorem blank_agent_accepted : (ofAgent (some "")).Accepted ∧ (ofAgent (some "")).validate = .ok () ∧
    "1.0.0".toList.all (!Text.isControl ·) = true ∧
      (ofAgent (some "")).configuration "1.0.0" = .error .unsendableUserAgent := by
  have haccepted : (ofAgent (some "")).Accepted :=
    .written ((congrArg (Except.bind · validated) ofToml_blankAgent).trans (validated_ofAgent (some "")))
  exact ⟨haccepted, haccepted.validate, by decide,
    configuration_of_unsendable haccepted.validate (by decide)⟩

end Settings
end PingDelivery
