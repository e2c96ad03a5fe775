import PingDelivery.Assembly
import PingDelivery.Proofs.Client.Delivery
import PingDelivery.Proofs.Settings.Agreement
import PingDelivery.Proofs.Submission.Slug
import PingDelivery.Proofs.Uuid

/-! # Where pings are submitted

The application's part of a path is the slug of its id. So it is a slug as soon as the id holds one letter
or digit, and empty if it holds none; nothing else can go wrong with a path.
-/

namespace PingDelivery
namespace Submission

/-! ## Paths -/

/-- The segments of a path, in the order in which they stand. -/
def segments (applicationId documentType : String) (id : Uuid) : List (List Char) :=
  ["submit".toList, slugChars applicationId.toList, documentType.toList, ['1'], id.text.toList]

theorem toList_path (applicationId documentType : String) (id : Uuid) :
    (path applicationId documentType id).toList =
      Url.pathChars (segments applicationId documentType id) := by
  have hsubmit : "/submit/".toList = '/' :: ("submit".toList ++ ['/']) := by decide
  have hversion : (toString schemaVersion).toList = ['1'] := by decide
  simp only [path, segments, slug, String.toList_append, String.toList_ofList, hsubmit, hversion]
  simp [Url.pathChars]

theorem isLower_or_isDigit_of_mem_hexChars {b : Bytes} {c : Char} (h : c ∈ b.hexChars) :
    c.isLower ∨ c.isDigit := by
  have all : ∀ n < 16, (Bytes.hexDigit n).isLower ∨ (Bytes.hexDigit n).isDigit := by decide
  obtain ⟨n, hn, rfl⟩ := Uuid.exists_hexDigit h
  exact all n hn

/-- Every segment is made of the characters that a document type may have. -/
theorem isDocumentChar_of_mem_segments {applicationId documentType : String} {id : Uuid}
    (htype : IsDocumentType documentType) {w : List Char}
    (hw : w ∈ segments applicationId documentType id) {c : Char} (hc : c ∈ w) :
    isDocumentChar c = true := by
  have hword {c : Char} (h : c = '-' ∨ c.isLower ∨ c.isDigit) : isDocumentChar c = true := by
    rcases h with rfl | h | h
    · rfl
    · simp only [isDocumentChar, h, Bool.true_or]
    · simp only [isDocumentChar, h, Bool.or_true, Bool.true_or]
  simp only [segments, List.mem_cons, List.not_mem_nil, or_false] at hw
  rcases hw with rfl | rfl | rfl | rfl | rfl
  · have all : "submit".toList.all isDocumentChar = true := by decide
    exact List.all_eq_true.1 all c hc
  · exact hword (mem_slugChars hc)
  · exact List.all_eq_true.1 htype.2.2 c hc
  · obtain rfl := List.mem_singleton.1 hc
    rfl
  · rw [Uuid.text, String.toList_ofList] at hc
    exact hword ((Uuid.mem_hyphenate hc).imp_right isLower_or_isDigit_of_mem_hexChars)

/-- No segment holds a slash: cut at its slashes, a path gives them back. -/
theorem splitOn_path {applicationId documentType : String} {id : Uuid}
    (htype : IsDocumentType documentType) :
    (path applicationId documentType id).toList.splitOn '/' =
      [] :: segments applicationId documentType id := by
  rw [toList_path, Url.pathChars_eq_intercalate, List.splitOn_intercalate]
  · intro w hw hslash
    rcases List.mem_cons.1 hw with rfl | hw
    · cases hslash
    · have hchar := isDocumentChar_of_mem_segments htype hw hslash
      revert hchar
      decide
  · exact List.cons_ne_nil _ _

/-- The path names the application, the document type and the ping in five segments. -/
def Names (path documentType : String) (id : Uuid) : Prop :=
  ∃ app, IsSlug app ∧ path.toList.splitOn '/' =
    [[], "submit".toList, app, documentType.toList, ['1'], id.text.toList]

theorem names_path_iff {applicationId documentType : String} {id : Uuid}
    (htype : IsDocumentType documentType) :
    Names (path applicationId documentType id) documentType id ↔
      ∃ c ∈ applicationId.toList, c.isAlphanum := by
  constructor
  · rintro ⟨app, hslug, hsplit⟩
    by_contra hnone
    rw [splitOn_path htype, segments, slugChars_eq_nil hnone] at hsplit
    have happ := (List.cons.inj (List.cons.inj (List.cons.inj hsplit).2).2).1
    exact hslug.ne_nil happ.symm
  · intro hletter
    exact ⟨_, isSlug_slugChars hletter, splitOn_path htype⟩

theorem isDocumentType_of_assemble {r : Assembly.Request} {c : Configuration} {s : Snapshot}
    {limit : Nat} {id : Uuid} {made : Time.Instant} {p : Ping} {drew : Bool}
    (h : Assembly.assemble r c s limit id made = (.ok p, drew)) : IsDocumentType r.documentType := by
  unfold Assembly.assemble Assembly.refusal? at h
  split at h
  · cases h
  · rename_i hrefusal
    split at hrefusal
    · cases hrefusal
    · rename_i htype
      exact Classical.not_not.1 htype

/-- **Where a ping is submitted**: to its document type and its id under the slug of the application,
if the id that was asked for has a letter or a digit to make one of. -/
theorem path_of_assembled {d : Configuration.Draft} {c : Configuration} (hbuilt : d.build = .ok c)
    {r : Assembly.Request} {s : Snapshot} {limit : Nat} {id : Uuid} {made : Time.Instant} {p : Ping}
    {drew : Bool} (h : Assembly.assemble r c s limit id made = (.ok p, drew)) :
    p.documentType = r.documentType ∧ IsDocumentType p.documentType ∧
      Uuid.parse? p.id.text = some p.id ∧
      p.metadata.path.toList.splitOn '/' = [[], "submit".toList, slugChars d.applicationId.toList,
        p.documentType.toList, ['1'], p.id.text.toList] ∧
      (Names p.metadata.path p.documentType p.id ↔ ∃ c ∈ d.applicationId.toList, c.isAlphanum) := by
  have htype := isDocumentType_of_assemble h
  have hid : c.applicationId = d.applicationId :=
    (Configuration.Draft.build_eq_ok_iff.1 hbuilt).2.applicationId
  obtain rfl := Assembly.eq_ping_of_assemble h
  rw [← hid]
  exact ⟨rfl, htype, Uuid.parse?_text _, splitOn_path htype, names_path_iff htype⟩

/-! ## Two application ids -/

end Submission

/-- What is built for an application that gives nothing but its id. -/
def Configuration.ofId (applicationId : String) : Configuration :=
  ⟨applicationId, ⟨true, [], .domain "incoming.telemetry.mozilla.org".toList, none, [[]], none, none⟩,
    defaultUserAgent programVersion, none, defaultMaxEvents, false, none, by decide, by decide⟩

theorem Configuration.build_ofId (applicationId : String) (h : Text.allBlank applicationId = false) :
    (Draft.ofId applicationId).build = .ok (.ofId applicationId) :=
  Draft.build_eq_ok_iff.2 ⟨h, rfl, Settings.parseEndpoint_default, rfl, rfl, rfl, rfl, rfl⟩

theorem Assembly.assemble_ofId (applicationId : String)
    (hshort : (document ⟨"events", none, none⟩ (.ofId applicationId) (.drawn 3)
      .ofOneEvent).chars.length ≤ 1000) :
    assemble ⟨"events", none, none⟩ (.ofId applicationId) .ofOneEvent
      LifecycleSettings.standard.maxPingSize (.drawn 3) ⟨0, 0, representable_zero⟩ =
        (.ok (ping ⟨"events", none, none⟩ (.ofId applicationId) .ofOneEvent (.drawn 3)
          ⟨0, 0, representable_zero⟩), true) :=
  assemble_of_short (by decide) hshort (by decide)

namespace Submission

/-- An id with capitals, a dot and a blank makes a slug of three words. -/
theorem path_of_example : ∃ c p drew, (Configuration.Draft.ofId "Org.Example App").build = .ok c ∧
    Assembly.assemble ⟨"events", none, none⟩ c .ofOneEvent LifecycleSettings.standard.maxPingSize
      (.drawn 3) ⟨0, 0, representable_zero⟩ = (.ok p, drew) ∧
    Names p.metadata.path p.documentType p.id ∧
    p.metadata.path = "/submit/org-example-app/events/1/00000000-0000-4000-8000-000000000003" := by
  have hbuilt := Configuration.build_ofId "Org.Example App" (by decide)
  have hmade := Assembly.assemble_ofId "Org.Example App" (by decide +kernel)
  obtain ⟨-, -, -, -, hnames⟩ := path_of_assembled hbuilt hmade
  exact ⟨_, _, _, hbuilt, hmade, hnames.2 ⟨'O', by decide, by decide⟩, by decide +kernel⟩

/-- An id in a script without such letters is accepted, and the application's segment is empty. -/
theorem path_of_nameless : ∃ c p drew, (Configuration.Draft.ofId "日本").build = .ok c ∧
    Assembly.assemble ⟨"events", none, none⟩ c .ofOneEvent LifecycleSettings.standard.maxPingSize
      (.drawn 3) ⟨0, 0, representable_zero⟩ = (.ok p, drew) ∧
    p.metadata.path = "/submit//events/1/00000000-0000-4000-8000-000000000003" ∧
    [] ∈ (p.metadata.path.toList.splitOn '/').tail ∧
    ¬ Names p.metadata.path p.documentType p.id := by
  have hbuilt := Configuration.build_ofId "日本" (by decide)
  have hmade := Assembly.assemble_ofId "日本" (by decide +kernel)
  refine ⟨_, _, _, hbuilt, hmade, by decide +kernel, by decide +kernel, ?_⟩
  intro hnames
  have halnum : "日本".toList.any Char.isAlphanum = true :=
    List.any_eq_true.2 ((names_path_iff (by decide)).1 hnames)
  exact absurd halnum (by decide)

end Submission
end PingDelivery
