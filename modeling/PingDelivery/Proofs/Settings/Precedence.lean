import PingDelivery.Proofs.Settings.Agreement
import PingDelivery.Proofs.Settings.Decoding
import PingDelivery.Proofs.Text.Utf8

/-! # Variables, file, defaults

Settings are loaded from a file, if there is one, with variables over it. Field by field this means: what
the field's own variable says, if it is set, and otherwise what the file says, and otherwise the default.
`overridable` lists the fields that have a variable, `fixed` those that no variable reaches. Together they
are all of the settings, so that settings of which this holds are the settings that are loaded.
-/

namespace PingDelivery.Settings
open Decode

/-- A field that a variable replaces, and how its text is read. -/
structure Overridable extends Field where
  variableName : String
  read : String → Except Text.Unreadable Value

/-- A number that the variable gives, as a value of the field. -/
def readAs {β : Type} (f : Nat → β) (limit : Nat) (t : String) : Except Text.Unreadable β :=
  (Text.readNat limit t).map f

def clientFields : List Overridable :=
  [⟨.ofClient (·.applicationId) "application_id" 0 string, "PING_APPLICATION_ID", .ok⟩,
    ⟨.ofClient (·.serverEndpoint) "server_endpoint" 1 string, "PING_SERVER_ENDPOINT", .ok⟩,
    ⟨.ofClient (·.userAgent) "user_agent" 2 (nullable string), "PING_USER_AGENT", fun t => .ok (some t)⟩,
    ⟨.ofClient (·.channel) "channel" 3 (nullable string), "PING_CHANNEL", fun t => .ok (some t)⟩,
    ⟨.ofClient (·.maxEvents) "max_events" 4 word, "PING_MAX_EVENTS", readAs id wordLimit⟩,
    ⟨.ofClient (·.logPings) "log_pings" 5 boolean, "PING_LOG_PINGS", Text.readBool⟩,
    ⟨.ofClient (·.tag) "ping_tag" 6 (nullable string), "PING_DEBUG_VIEW_TAG", fun t => .ok (some t)⟩]

def lifecycleFields : List Overridable :=
  [⟨.ofLifecycle (·.storagePath) "storage_path" 0 string, "PING_STORAGE_PATH", .ok⟩,
    ⟨.ofLifecycle (·.maxPingSize) "max_ping_size" 1 word, "PING_MAX_PING_SIZE", readAs id wordLimit⟩,
    ⟨.ofLifecycle (·.maxAttempts) "max_upload_attempts" 2 halfWord, "PING_MAX_UPLOAD_ATTEMPTS",
      readAs UInt32.ofNat attemptLimit⟩,
    ⟨.ofLifecycle (·.uploadTimeout) "upload_timeout" 3 millis, "PING_UPLOAD_TIMEOUT_MS",
      readAs Span.ofMillis wordLimit⟩,
    ⟨.ofLifecycle (·.uploadInterval) "upload_interval" 4 millis, "PING_UPLOAD_INTERVAL_MS",
      readAs Span.ofMillis wordLimit⟩,
    ⟨.ofLifecycle (·.compress) "compress_uploads" 5 boolean, "PING_COMPRESS_UPLOADS", Text.readBool⟩]

def overridable : List Overridable := clientFields ++ lifecycleFields

def fixed : List Field :=
  [.ofLifecycle (·.maxPings) "max_pending_pings" 6 word,
    .ofLifecycle (·.maxBytes) "max_pending_bytes" 7 word,
    .ofLifecycle (·.backoff) "backoff" 8 (Decode.backoff .toml)]

variable {start s s' : Settings} {doc : Option Json} {env : Environment} {file : Option SettingsFile}
  {name : String} {β : Type} {read : String → Except Text.Unreadable β} {before after : β}

/-- The fields are all there is to settings. -/
theorem ext_fields (hown : ∀ f ∈ overridable, f.get s = f.get s')
    (hfixed : ∀ f ∈ fixed, f.get s = f.get s') : s = s' := by
  simp only [overridable, clientFields, lifecycleFields, fixed, List.cons_append, List.nil_append,
    List.forall_mem_cons, Field.ofClient, Field.ofLifecycle] at hown hfixed
  obtain ⟨⟨_, _, _, _, _, _, _⟩, ⟨_, _, _, _, _, _, _, _, _⟩⟩ := s
  obtain ⟨⟨_, _, _, _, _, _, _⟩, ⟨_, _, _, _, _, _, _, _, _⟩⟩ := s'
  simp_all

/-! ## What a file gives -/

/-- A document is what stands in the file; without a file there is none. It must be one of settings. -/
inductive Opened : Option SettingsFile → Option Json → Prop where
  | absent : Opened none none
  | read {b : Bytes} {t : String} {doc : Json} (htext : b.text? = some t)
      (hdoc : Toml.parse t = some doc) (hsettings : (Decode.settings .toml doc).isSome = true) :
      Opened (some (.holding b)) (some doc)

/-- The settings to start with. -/
def starting : Option SettingsFile → Except ConfigError Settings
  | some f => ofFile f
  | none => .ok standard

/-- Every field is what the document says, or the default. -/
def AllGiven (doc : Option Json) (s : Settings) : Prop :=
  (∀ f ∈ overridable, f.Given doc s) ∧ ∀ f ∈ fixed, f.Given doc s

theorem allGiven_of_settings {doc : Json} (h : Decode.settings .toml doc = some s) :
    AllGiven (some doc) s := by
  have hclient : ∀ f ∈ clientFields, f.Given (some doc) s := by
    simp only [clientFields, List.forall_mem_cons]
    refine ⟨?_, ?_, ?_, ?_, ?_, ?_, ?_, List.forall_mem_nil _⟩
    all_goals
      exact given_ofClient h fun _ _ =>
        Owns.told _ ⟨by simp, ⟨_, rfl, fun _ _ => rfl⟩, by simp [keeps_setter]⟩
  have hlifecycle : ∀ f ∈ lifecycleFields, f.Given (some doc) s := by
    simp only [lifecycleFields, List.forall_mem_cons]
    refine ⟨?_, ?_, ?_, ?_, ?_, ?_, List.forall_mem_nil _⟩
    all_goals
      exact given_ofLifecycle h fun _ _ =>
        Owns.told _ ⟨by simp, ⟨_, rfl, fun _ _ => rfl⟩, by simp [keeps_setter]⟩
  refine ⟨List.forall_mem_append.2 ⟨hclient, hlifecycle⟩, ?_⟩
  simp only [fixed, List.forall_mem_cons]
  refine ⟨?_, ?_, ?_, List.forall_mem_nil _⟩
  all_goals
    exact given_ofLifecycle h fun _ _ =>
      Owns.told _ ⟨by simp, ⟨_, rfl, fun _ _ => rfl⟩, by simp [keeps_setter]⟩

theorem ofToml_eq_ok_iff {t : String} : ofToml t = .ok s ↔
    ∃ doc, Toml.parse t = some doc ∧ Decode.settings .toml doc = some s := by
  rw [← Option.bind_eq_some_iff]
  unfold ofToml
  cases (Toml.parse t).bind (Decode.settings .toml) with
  | none => simp
  | some s' => simp

theorem Opened.exists_starting (h : Opened file doc) :
    ∃ start, starting file = .ok start ∧ AllGiven doc start := by
  cases h with
  | absent => exact ⟨standard, rfl, fun f _ => rfl, fun f _ => rfl⟩
  | @read b t doc htext hdoc hsettings =>
    obtain ⟨start, hstart⟩ := Option.isSome_iff_exists.1 hsettings
    refine ⟨start, ?_, allGiven_of_settings hstart⟩
    simp only [starting, ofFile, htext]
    exact ofToml_eq_ok_iff.2 ⟨doc, hdoc, hstart⟩

theorem exists_opened (h : starting file = .ok start) : ∃ doc, Opened file doc ∧ AllGiven doc start := by
  cases file with
  | none =>
    cases h
    exact ⟨none, .absent, fun f _ => rfl, fun f _ => rfl⟩
  | some f =>
    cases f with
    | missing => cases h
    | holding b =>
      simp only [starting, ofFile] at h
      split at h
      · cases h
      · rename_i t htext
        obtain ⟨doc, hdoc, hsettings⟩ := ofToml_eq_ok_iff.1 h
        exact ⟨some doc, .read htext hdoc (Option.isSome_of_eq_some hsettings),
          allGiven_of_settings hsettings⟩

/-! ## What variables replace -/

/-- A value is what the variable says, or else what it was before. -/
def Replaced (env : Environment) (name : String) (read : String → Except Text.Unreadable β)
    (before after : β) : Prop :=
  match env.text? name with
  | some t => read t = .ok after
  | none => after = before

theorem replaced_text (before : String) : Replaced env name .ok before (env.text name before) := by
  unfold Replaced Environment.text
  cases env.text? name <;> rfl

theorem replaced_optionalText (before : Option String) :
    Replaced env name (fun t => .ok (some t)) before (env.optionalText name before) := by
  unfold Replaced Environment.optionalText
  cases env.text? name <;> rfl

theorem value_eq_ok_iff : env.value name read before = .ok after ↔ Replaced env name read before after := by
  unfold Environment.value Replaced
  cases env.text? name with
  | none => simp [eq_comm]
  | some t => cases hread : read t <;> simp [hread]

/-- A variable is read as a number and its value made of that. -/
theorem replaced_readAs {f : Nat → β} {limit n number : Nat}
    (h : env.value name (Text.readNat limit) number = .ok n) :
    Replaced env name (readAs f limit) (f number) (f n) := by
  have hreplaced := value_eq_ok_iff.1 h
  unfold Replaced at hreplaced ⊢
  cases ht : env.text? name with
  | none =>
    rw [ht] at hreplaced
    exact congrArg f hreplaced
  | some t =>
    rw [ht] at hreplaced
    simp only [readAs, hreplaced]
    rfl

/-- The variable is unset or its text reads. -/
def Readable (env : Environment) (name : String) (read : String → Except Text.Unreadable β) : Prop :=
  ∀ t, env.text? name = some t → ∃ a, read t = .ok a

theorem Readable.exists_value (h : Readable env name read) (before : β) :
    ∃ a, env.value name read before = .ok a := by
  unfold Environment.value
  split
  · exact ⟨before, rfl⟩
  · rename_i t ht
    obtain ⟨a, ha⟩ := h t ht
    exact ⟨a, by rw [ha]⟩

theorem Readable.exists_number {f : Nat → β} {limit : Nat} (h : Readable env name (readAs f limit))
    (before : Nat) : ∃ n, env.value name (Text.readNat limit) before = .ok n := by
  refine Readable.exists_value (fun t ht => ?_) before
  obtain ⟨a, ha⟩ := h t ht
  unfold readAs at ha
  cases hread : Text.readNat limit t with
  | ok n => exact ⟨n, rfl⟩
  | error e =>
    rw [hread] at ha
    cases ha

/-! ### Spans

A variable that is unset still has its span written back, as whole milliseconds of 64 bits. Every span that
a document gives is one of those. -/

def Whole (d : Span) : Prop := Span.ofMillis (Upload.Backoff.wordMillis d) = d

theorem whole_of_told {v : Option Json} {d d' : Span} (h : Told millis v d d') (hd : Whole d) :
    Whole d' := by
  cases v with
  | none => exact (show d' = d from h) ▸ hd
  | some v =>
    obtain ⟨n, hn, rfl⟩ := Option.map_eq_some_iff.1 h
    obtain ⟨m, -, hm⟩ := Option.bind_eq_some_iff.1 hn
    split at hm
    · cases hm
      rename_i hlt
      simp only [Whole, Upload.Backoff.wordMillis, Span.millis, Span.ofMillis]
      rw [Nat.mul_div_cancel _ (by decide), Nat.mod_eq_of_lt hlt]
    · cases hm

theorem whole_of_allGiven (h : AllGiven doc start) :
    Whole start.lifecycle.uploadTimeout ∧ Whole start.lifecycle.uploadInterval := by
  obtain ⟨hown, -⟩ := h
  simp only [overridable, clientFields, lifecycleFields, List.cons_append, List.nil_append,
    List.forall_mem_cons] at hown
  obtain ⟨-, -, -, -, -, -, -, -, -, -, htimeout, hinterval, -⟩ := hown
  exact ⟨whole_of_told htimeout rfl, whole_of_told hinterval rfl⟩

theorem replaced_of_millisFrom {d d' : Span} (hd : Whole d) (h : millisFrom env name d = .ok d') :
    Replaced env name (readAs Span.ofMillis wordLimit) d d' := by
  unfold millisFrom at h
  cases hvalue : env.value name (Text.readNat wordLimit) (Upload.Backoff.wordMillis d) with
  | error e =>
    rw [hvalue] at h
    cases h
  | ok n =>
    rw [hvalue] at h
    cases h
    have hreplaced := replaced_readAs (f := Span.ofMillis) hvalue
    rwa [show Span.ofMillis (Upload.Backoff.wordMillis d) = d from hd] at hreplaced

/-! ### All fields -/

theorem bind_eq_ok_iff {α γ : Type} {x : Except ConfigError α} {f : α → Except ConfigError γ} {c : γ} :
    (x >>= f) = .ok c ↔ ∃ a, x = .ok a ∧ f a = .ok c := by
  cases x with
  | error e => simp [bind, Except.bind]
  | ok a => simp [bind, Except.bind]

theorem replaced_of_overridden (hstart : AllGiven doc start) (h : start.overridden env = .ok s) :
    (∀ f ∈ overridable, Replaced env f.variableName f.read (f.get start) (f.get s)) ∧
      ∀ f ∈ fixed, f.get s = f.get start := by
  obtain ⟨htimeout, hinterval⟩ := whole_of_allGiven hstart
  simp only [overridden, clientFrom, lifecycleFrom, bind_eq_ok_iff] at h
  obtain ⟨c, ⟨maxEvents, he, logPings, hp, hc⟩,
    l, ⟨maxPingSize, hm, attempts, ha, timeout, ht, interval, hi, compress, hz, hl⟩, hs⟩ := h
  cases hc
  cases hl
  cases hs
  have hattempts := replaced_readAs (f := UInt32.ofNat) ha
  rw [UInt32.ofNat_toNat] at hattempts
  refine ⟨List.forall_mem_append.2 ⟨?_, ?_⟩, ?_⟩
  · simp only [clientFields, List.forall_mem_cons]
    exact ⟨replaced_text _, replaced_text _, replaced_optionalText _, replaced_optionalText _,
      replaced_readAs he, value_eq_ok_iff.1 hp, replaced_optionalText _, List.forall_mem_nil _⟩
  · simp only [lifecycleFields, List.forall_mem_cons]
    exact ⟨replaced_text _, replaced_readAs hm, hattempts, replaced_of_millisFrom htimeout ht,
      replaced_of_millisFrom hinterval hi, value_eq_ok_iff.1 hz, List.forall_mem_nil _⟩
  · simp only [fixed, List.forall_mem_cons]
    exact ⟨rfl, rfl, rfl, List.forall_mem_nil _⟩

/-- Every variable that is set reads as its field's type. -/
def AllReadable (env : Environment) : Prop := ∀ f ∈ overridable, Readable env f.variableName f.read

theorem AllReadable.exists_overridden (h : AllReadable env) (start : Settings) :
    ∃ s, start.overridden env = .ok s := by
  simp only [AllReadable, overridable, clientFields, lifecycleFields, List.cons_append, List.nil_append,
    List.forall_mem_cons] at h
  obtain ⟨-, -, -, -, he, hp, -, -, hm, ha, ht, hi, hz, -⟩ := h
  obtain ⟨maxEvents, he⟩ := he.exists_number start.client.maxEvents
  obtain ⟨logPings, hp⟩ : ∃ b, env.value "PING_LOG_PINGS" Text.readBool start.client.logPings = .ok b :=
    hp.exists_value start.client.logPings
  obtain ⟨maxPingSize, hm⟩ := hm.exists_number start.lifecycle.maxPingSize
  obtain ⟨attempts, ha⟩ := ha.exists_number start.lifecycle.maxAttempts.toNat
  obtain ⟨timeout, ht⟩ := ht.exists_number (Upload.Backoff.wordMillis start.lifecycle.uploadTimeout)
  obtain ⟨interval, hi⟩ := hi.exists_number (Upload.Backoff.wordMillis start.lifecycle.uploadInterval)
  obtain ⟨compress, hz⟩ : ∃ b, env.value "PING_COMPRESS_UPLOADS" Text.readBool start.lifecycle.compress =
      .ok b :=
    hz.exists_value start.lifecycle.compress
  simp only [overridden, clientFrom, lifecycleFrom, millisFrom, he, hp, hm, ha, ht, hi, hz]
  exact ⟨_, rfl⟩

/-! ## What is loaded -/

/-- The field is what its own variable says, or else what the document says, or else the default. -/
def Overridable.Settled (f : Overridable) (env : Environment) (doc : Option Json) (s : Settings) : Prop :=
  match env.text? f.variableName with
  | some t => f.read t = .ok (f.get s)
  | none => f.Given doc s

/-- The settings that a document and the variables come to. -/
structure Combined (env : Environment) (doc : Option Json) (s : Settings) : Prop where
  overridable : ∀ f ∈ overridable, f.Settled env doc s
  fixed : ∀ f ∈ fixed, f.Given doc s

theorem Field.Given.congr {f : Field} (h : f.Given doc s) (heq : f.get s' = f.get s) : f.Given doc s' := by
  unfold Field.Given at h ⊢
  rwa [heq]

theorem Field.Given.unique {f : Field} (h : f.Given doc s) (h' : f.Given doc s') : f.get s = f.get s' := by
  unfold Field.Given Told at h h'
  split at h
  · rename_i v hv
    rw [hv] at h'
    exact Option.some.inj (h.symm.trans h')
  · rename_i hv
    rw [hv] at h'
    exact h.trans h'.symm

theorem Overridable.Settled.unique {f : Overridable} (h : f.Settled env doc s)
    (h' : f.Settled env doc s') : f.get s = f.get s' := by
  unfold Overridable.Settled at h h'
  split at h
  · rename_i t ht
    rw [ht] at h'
    exact Except.ok.inj (h.symm.trans h')
  · rename_i ht
    rw [ht] at h'
    exact h.unique h'

theorem Combined.unique (h : Combined env doc s) (h' : Combined env doc s') : s = s' :=
  ext_fields (fun f hf => (h.overridable f hf).unique (h'.overridable f hf))
    fun f hf => (h.fixed f hf).unique (h'.fixed f hf)

theorem combined_of_overridden (hstart : AllGiven doc start) (h : start.overridden env = .ok s) :
    Combined env doc s := by
  obtain ⟨hown, hfixed⟩ := replaced_of_overridden hstart h
  refine ⟨fun f hf => ?_, fun f hf => (hstart.2 f hf).congr (hfixed f hf)⟩
  have hreplaced := hown f hf
  unfold Replaced at hreplaced
  unfold Overridable.Settled
  split
  · rename_i t ht
    rw [ht] at hreplaced
    exact hreplaced
  · rename_i ht
    rw [ht] at hreplaced
    exact (hstart.1 f hf).congr hreplaced

theorem Combined.readable (h : Combined env doc s) : AllReadable env := by
  intro f hf t ht
  have hsettled := h.overridable f hf
  unfold Overridable.Settled at hsettled
  rw [ht] at hsettled
  exact ⟨_, hsettled⟩

theorem exists_combined (hopened : Opened file doc) (hread : AllReadable env) :
    ∃ start s, starting file = .ok start ∧ start.overridden env = .ok s ∧ Combined env doc s := by
  obtain ⟨start, hstart, hgiven⟩ := hopened.exists_starting
  obtain ⟨s, hs⟩ := hread.exists_overridden start
  exact ⟨start, s, hstart, hs, combined_of_overridden hgiven hs⟩

theorem validated_eq_ok_iff : s.validated = .ok s' ↔ s = s' ∧ s.validate = .ok () := by
  unfold validated
  split
  · rename_i h
    simp [h]
  · rename_i h
    simp [h]

theorem load_eq (file : Option SettingsFile) (env : Environment) :
    load file env = starting file >>= fun start => start.overridden env >>= validated := by
  cases file <;> rfl

theorem load_eq_ok_iff : load file env = .ok s ↔
    ∃ doc, Opened file doc ∧ AllReadable env ∧ Combined env doc s ∧ s.validate = .ok () := by
  simp only [load_eq, bind_eq_ok_iff, validated_eq_ok_iff]
  constructor
  · rintro ⟨start, hstart, s, hs, rfl, hvalidate⟩
    obtain ⟨doc, hopened, hgiven⟩ := exists_opened hstart
    have hcombined := combined_of_overridden hgiven hs
    exact ⟨doc, hopened, hcombined.readable, hcombined, hvalidate⟩
  · rintro ⟨doc, hopened, hread, hcombined, hvalidate⟩
    -- something is loaded, and there is only one combination that it can be
    obtain ⟨start, s', hstart, hs', hcombined'⟩ := exists_combined hopened hread
    exact ⟨start, hstart, s', hs', hcombined'.unique hcombined, hcombined'.unique hcombined ▸ hvalidate⟩

/-- No variable that a field has is set. -/
def Bare (env : Environment) : Prop := ∀ f ∈ overridable, env.text? f.variableName = none

theorem overridden_of_bare (h : Bare env) (hstart : AllGiven doc start) :
    start.overridden env = .ok start := by
  have hread : AllReadable env := by
    intro f hf t ht
    rw [h f hf] at ht
    cases ht
  obtain ⟨s, hs⟩ := hread.exists_overridden start
  obtain ⟨hown, hfixed⟩ := replaced_of_overridden hstart hs
  -- no field is replaced, and the spans that are written back are the same
  have hsame : s = start := by
    refine ext_fields (fun f hf => ?_) hfixed
    have hreplaced := hown f hf
    unfold Replaced at hreplaced
    rw [h f hf] at hreplaced
    exact hreplaced
  rw [hs, hsame]

theorem load_of_bare (h : Bare env) (file : Option SettingsFile) :
    load file env = (starting file).bind validated := by
  rw [load_eq]
  cases hstart : starting file with
  | error e => rfl
  | ok start =>
    obtain ⟨doc, -, hgiven⟩ := exists_opened hstart
    change start.overridden env >>= validated = start.validated
    rw [overridden_of_bare h hgiven]
    rfl

theorem ofFile_holding {b : Bytes} {t : String} (h : b.text? = some t) :
    ofFile (.holding b) = ofToml t := by
  simp only [ofFile, h]

/-- **Variables come before the file, and the file before the defaults.** Settings are loaded exactly if the
file reads as a document of settings, every variable that is set reads, and the settings that the two come
to pass the check; these are the settings then, and there are no others of which the same holds. With no
variable set the file alone, and its text alone, give the same settings or the same error. -/
theorem settings_precedence (file : Option SettingsFile) (env : Environment) :
    (∀ s, load file env = .ok s ↔
      ∃ doc, Opened file doc ∧ AllReadable env ∧ Combined env doc s ∧ s.validate = .ok ()) ∧
    (∀ doc, Opened file doc → AllReadable env → ∃ s, Combined env doc s ∧
      ∀ s', Combined env doc s' → s' = s) ∧
    (Bare env → ∀ f, file = some f → load file env = (ofFile f).bind validated ∧
      ∀ b t, f = .holding b → b.text? = some t → load file env = (ofToml t).bind validated) := by
  refine ⟨fun s => load_eq_ok_iff, fun doc hopened hread => ?_, ?_⟩
  · obtain ⟨-, s, -, -, hs⟩ := exists_combined hopened hread
    exact ⟨s, hs, fun s' hs' => hs'.unique hs⟩
  · rintro hbare f rfl
    refine ⟨load_of_bare hbare (some f), ?_⟩
    rintro b t rfl htext
    rw [load_of_bare hbare, starting, ofFile_holding htext]

/-- A file of settings from either part. -/
def sample : String :=
  "[client]\napplication_id = \"app\"\nmax_events = 5\nchannel = \"beta\"\n[lifecycle]\nupload_timeout = 750\n"

/-- A number with a sign, bytes that are no text, and a span. -/
def assigned : Environment :=
  ((Dict.empty.insert "PING_MAX_EVENTS" (Bytes.ofText "+9")).insert "PING_CHANNEL" [0xFF]).insert
    "PING_UPLOAD_INTERVAL_MS" (Bytes.ofText "40")

def mixed : Settings where
  client := { ClientSettings.standard with applicationId := "app", maxEvents := 9, channel := some "beta" }
  lifecycle := { LifecycleSettings.standard with
    uploadTimeout := .ofMillis 750, uploadInterval := .ofMillis 40 }

theorem sample_loaded :
    load (some (.holding (Bytes.ofText sample))) assigned = .ok mixed ∧
    (∃ doc, Combined assigned (some doc) mixed) ∧ Bare .empty ∧
    load (some (.holding (Bytes.ofText sample))) .empty = (ofToml sample).bind validated := by
  have hload : load (some (.holding (Bytes.ofText sample))) assigned = .ok mixed :=
    eq_ok_of_toOption (by decide +kernel)
  have hbare : Bare .empty := fun f _ => rfl
  obtain ⟨hloaded, -, -⟩ := settings_precedence (some (.holding (Bytes.ofText sample))) assigned
  obtain ⟨-, -, hsame⟩ := settings_precedence (some (.holding (Bytes.ofText sample))) .empty
  obtain ⟨doc, hopened, -, hcombined, -⟩ := (hloaded mixed).1 hload
  refine ⟨hload, ?_, hbare, (hsame hbare _ rfl).2 _ _ rfl (Bytes.text?_ofText sample)⟩
  cases hopened
  exact ⟨_, hcombined⟩

end PingDelivery.Settings
