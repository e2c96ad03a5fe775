import PingDelivery.Proofs.Submission
import PingDelivery.Proofs.Url.Roundtrip
import PingDelivery.Upload.Request
import Mathlib.Data.List.DropRight

/-! # Where requests go

A request's address is the text of the endpoint without the slashes it ends with, and the submission path
behind it. That text is the text of an address again. Which one depends on what the endpoint's text ends
with: where that is the path, the segments go on the path; a query or a fragment takes them up instead.
-/

namespace PingDelivery
namespace Url

/-! ## Slashes at the end -/

/-- A text without the slashes at its end. -/
def trimmed (s : List Char) : List Char := s.rdropWhile (· == '/')

theorem trimmed_slash (s : List Char) : trimmed (s ++ ['/']) = trimmed s :=
  List.rdropWhile_concat_pos _ _ _ rfl

theorem trimmed_concat (s : List Char) {c : Char} (h : c ≠ '/') : trimmed (s ++ [c]) = s ++ [c] :=
  List.rdropWhile_concat_neg _ _ _ (by simpa using h)

/-- Trimming stops at a character that is no slash. -/
theorem trimmed_append_cons (s t : List Char) {c : Char} (h : c ≠ '/') :
    trimmed (s ++ c :: t) = s ++ c :: trimmed t := by
  induction t using List.reverseRecOn with
  | nil => exact trimmed_concat s h
  | append_singleton t d ih =>
    rw [← List.cons_append, ← List.append_assoc]
    by_cases hd : d = '/'
    · rw [hd, trimmed_slash, trimmed_slash, ih]
    · rw [trimmed_concat _ hd, trimmed_concat _ hd, List.append_assoc, List.cons_append]

theorem mem_of_mem_trimmed {s : List Char} {c : Char} (h : c ∈ trimmed s) : c ∈ s :=
  (List.rdropWhile_prefix _ _).subset h

theorem pathChars_append (l m : List (List Char)) : pathChars (l ++ m) = pathChars l ++ pathChars m :=
  List.flatMap_append

/-- The segments of a path up to the last that is not empty. -/
def front (l : List (List Char)) : List (List Char) := l.rdropWhile List.isEmpty

theorem mem_of_mem_front {l : List (List Char)} {s : List Char} (h : s ∈ front l) : s ∈ l :=
  (List.rdropWhile_prefix _ _).subset h

/-- To trim a path is to leave out the empty segments at its end. -/
theorem trimmed_append_pathChars {s : List Char} {l : List (List Char)} (hs : trimmed s = s)
    (hl : ∀ t ∈ l, '/' ∉ t) : trimmed (s ++ pathChars l) = s ++ pathChars (front l) := by
  induction l using List.reverseRecOn with
  | nil =>
    rw [pathChars, List.flatMap_nil, List.append_nil, hs]
    exact (List.append_nil s).symm
  | append_singleton l t ih =>
    cases ht : t.isEmpty with
    | true =>
      have hlast : pathChars [t] = ['/'] := by rw [List.isEmpty_iff.1 ht]; rfl
      have hfront : front (l ++ [t]) = front l := List.rdropWhile_concat_pos _ _ _ ht
      rw [hfront, pathChars_append, hlast, ← List.append_assoc, trimmed_slash,
        ih fun t ht => hl t (List.mem_append_left _ ht)]
    | false =>
      have hne := List.isEmpty_eq_false_iff.1 ht
      have hlast : pathChars [t] = '/' :: t.dropLast ++ [t.getLast hne] := by
        rw [List.cons_append, List.dropLast_concat_getLast]
        simp [pathChars]
      have hend : t.getLast hne ≠ '/' := fun heq =>
        hl t (List.mem_append_right _ List.mem_cons_self) (heq ▸ List.getLast_mem hne)
      have hfront : front (l ++ [t]) = l ++ [t] :=
        List.rdropWhile_concat_neg _ _ _ (by rw [ht]; exact Bool.false_ne_true)
      rw [hfront, pathChars_append, hlast, ← List.append_assoc, ← List.append_assoc,
        trimmed_concat _ hend]

/-! ## Segments behind an address -/

/-- The address with segments put behind its text, once the slashes at the end of that are gone. -/
def extended (u : Url) (l : List (List Char)) : Url :=
  match u.fragment, u.query with
  | some f, _ => { u with fragment := some (trimmed f ++ pathChars l) }
  | none, some q => { u with query := some (trimmed q ++ pathChars l) }
  | none, none => { u with path := front u.path ++ l }

section
variable {u : Url} (l : List (List Char))

theorem extended_of_path (hf : u.fragment = none) (hq : u.query = none) :
    u.extended l = { u with path := front u.path ++ l } := by
  rw [extended, hf, hq]

theorem extended_of_query (hf : u.fragment = none) {q : List Char} (hq : u.query = some q) :
    u.extended l = { u with query := some (trimmed q ++ pathChars l) } := by
  rw [extended, hf, hq]

theorem extended_of_fragment {f : List Char} (hf : u.fragment = some f) :
    u.extended l = { u with fragment := some (trimmed f ++ pathChars l) } := by
  rw [extended, hf]

end

theorem chars_eq (u : Url) : u.chars = u.scheme.toList ++ "://".toList ++ u.authorityChars ++
    pathChars u.path ++ marked '?' u.query ++ marked '#' u.fragment := rfl

namespace Canonical
variable {u : Url} (h : u.Canonical)
include h

theorem trimmed_authority (s : List Char) :
    trimmed (s ++ u.authorityChars) = s ++ u.authorityChars := by
  have hne := h.authority_ne_nil
  have hend : u.authorityChars.getLast hne ≠ '/' := fun heq => by
    have hinside := (h.authority (List.getLast_mem hne)).2
    rw [heq] at hinside
    revert hinside
    decide
  rw [← List.dropLast_concat_getLast hne, ← List.append_assoc, trimmed_concat _ hend]

/-- What is put behind the text of an address makes the text of the extended one. -/
theorem chars_extended (l : List (List Char)) :
    (u.extended l).chars = trimmed u.chars ++ pathChars l := by
  rw [chars_eq u]
  cases hf : u.fragment with
  | some f =>
    rw [marked, trimmed_append_cons _ _ (by decide)]
    simp [extended, hf, chars_eq, scheme, authorityChars, marked]
  | none =>
    rw [marked, List.append_nil]
    cases hq : u.query with
    | some q =>
      rw [marked, trimmed_append_cons _ _ (by decide)]
      simp [extended, hf, hq, chars_eq, scheme, authorityChars, marked]
    | none =>
      rw [marked, List.append_nil, trimmed_append_pathChars (h.trimmed_authority _)
        fun s hs hslash => ((h.segments s hs).whole _ hslash).1 rfl]
      simp [extended, hf, hq, chars_eq, scheme, authorityChars, marked, pathChars_append]

end Canonical

/-! ## The submission path as segments -/

open Submission (isDocumentChar)

theorem of_isDocumentChar {c : Char} (h : isDocumentChar c = true) : c.toNat < 128 ∧
    inPath c = false ∧ inQuery c = false ∧ c ≠ '/' ∧ c ≠ '\\' ∧ c.toLower = c := by
  have hall : ∀ n < 128, isDocumentChar (Char.ofNat n) = true → inPath (Char.ofNat n) = false ∧
      inQuery (Char.ofNat n) = false ∧ Char.ofNat n ≠ '/' ∧ Char.ofNat n ≠ '\\' ∧
        (Char.ofNat n).toLower = Char.ofNat n := by decide
  have hlt : c.toNat < 128 := by
    simp only [isDocumentChar, Bool.or_eq_true, beq_iff_eq] at h
    rcases h with ((h | h) | rfl) | rfl
    · have hle : c.toNat ≤ 122 := (Text.isLower_iff.1 h).2
      omega
    · have hle : c.toNat ≤ 57 := (Char.isDigit_iff_toNat.1 h).2
      omega
    · decide
    · decide
  have hchar : Char.ofNat c.toNat = c := Char.ofNat_toNat c
  have hc := hall c.toNat hlt
  rw [hchar] at hc
  exact ⟨hlt, hc h⟩

theorem isSegment_of_documentChars {s : List Char} (h : ∀ c ∈ s, isDocumentChar c = true) :
    IsSegment s := by
  have hlower : s.map Char.toLower = s :=
    (List.map_congr_left fun c hc => (of_isDocumentChar (h c hc)).2.2.2.2.2).trans (List.map_id s)
  have hother {t : String} (ht : t.toList.any (!isDocumentChar ·) = true) : String.ofList s ≠ t := by
    rintro rfl
    rw [String.toList_ofList] at ht
    obtain ⟨c, hc, hnot⟩ := List.any_eq_true.1 ht
    rw [h c hc] at hnot
    cases hnot
  refine ⟨fun c hc => ?_, fun c hc => ?_, ?_⟩
  · obtain ⟨hlt, hpath, -⟩ := of_isDocumentChar (h c hc)
    exact ⟨hlt, hpath⟩
  · obtain ⟨-, -, -, hslash, hback, -⟩ := of_isDocumentChar (h c hc)
    exact ⟨hslash, hback⟩
  · simp only [isDoublePoint, isSinglePoint, hlower, List.contains_eq_mem, List.mem_cons,
      List.not_mem_nil, or_false, decide_eq_false_iff_not, not_or]
    exact ⟨⟨hother (by decide), hother (by decide), hother (by decide), hother (by decide)⟩,
      hother (by decide), hother (by decide)⟩

section
variable {u : Url} (h : u.Canonical) {l : List (List Char)}
  (hl : ∀ s ∈ l, ∀ c ∈ s, isDocumentChar c = true)

include hl in
/-- Such segments can stand in a query or a fragment too. -/
theorem mem_pathChars {c : Char} (hc : c ∈ pathChars l) :
    c.toNat < 128 ∧ inQuery c = false ∧ inFragment c = false := by
  rw [pathChars_eq_intercalate] at hc
  rcases mem_of_mem_intercalate hc with rfl | ⟨s, hs, hc⟩
  · decide
  · rcases List.mem_cons.1 hs with rfl | hs
    · cases hc
    · obtain ⟨hlt, hpath, hquery, -⟩ := of_isDocumentChar (hl s hs c hc)
      rw [inPath, Bool.or_eq_false_iff] at hpath
      exact ⟨hlt, hquery, hpath.1⟩

include h hl in
theorem Canonical.extended (hne : l ≠ []) : (u.extended l).Canonical := by
  have hfragment : Settled inFragment (pathChars l) := fun c hc =>
    ⟨(mem_pathChars hl hc).1, (mem_pathChars hl hc).2.2⟩
  have hquery : Settled inQuery (pathChars l) := fun c hc =>
    ⟨(mem_pathChars hl hc).1, (mem_pathChars hl hc).2.1⟩
  unfold Url.extended
  split
  · rename_i f hf
    refine { h with fragment := fun f' hf' => ?_ }
    cases hf'
    exact .append (fun c hc => h.fragment f hf c (mem_of_mem_trimmed hc)) hfragment
  · rename_i q hf hq
    refine { h with query := fun q' hq' => ?_ }
    cases hq'
    exact .append (fun c hc => h.query q hq c (mem_of_mem_trimmed hc)) hquery
  · refine { h with path := List.append_ne_nil_of_right_ne_nil _ hne, segments := fun s hs => ?_ }
    rcases List.mem_append.1 hs with hs | hs
    · exact h.segments s (mem_of_mem_front hs)
    · exact isSegment_of_documentChars (hl s hs)

end

theorem documentChars_of_segments {applicationId documentType : String} {id : Uuid}
    (htype : Submission.IsDocumentType documentType) :
    ∀ s ∈ Submission.segments applicationId documentType id, ∀ c ∈ s, isDocumentChar c = true :=
  fun _ hs _ hc => Submission.isDocumentChar_of_mem_segments htype hs hc

/-! ## Requests -/

/-- What the text of a request addresses: the endpoint's server, and there the submission path behind the
endpoint's own. Where the endpoint has a query or a fragment, the path is not in the place for paths. -/
structure Addresses (url : String) (endpoint : Url) (path : String) (v : Url) : Prop where
  text : url = v.text
  /-- It is read as this address, as long as the host's text is read as the host. -/
  reads : parseHost endpoint.host.chars = .ok endpoint.host → parse url = .ok (.web v)
  secure : v.secure = endpoint.secure
  userinfo : v.userinfo = endpoint.userinfo
  host : v.host = endpoint.host
  port : v.port = endpoint.port
  onPath : endpoint.query = none → endpoint.fragment = none →
    pathChars v.path = trimmed (pathChars endpoint.path) ++ path.toList ∧ v.query = none ∧
      v.fragment = none
  behindQuery : ∀ q, endpoint.query = some q → endpoint.fragment = none →
    v.path = endpoint.path ∧ v.query = some (trimmed q ++ path.toList)
  behindFragment : ∀ f, endpoint.fragment = some f →
    v.path = endpoint.path ∧ v.query = endpoint.query ∧ v.fragment = some (trimmed f ++ path.toList)

theorem toList_withoutTrailingSlashes (s : String) :
    (Metadata.withoutTrailingSlashes s).toList = trimmed s.toList := String.toList_ofList

/-- The address of an endpoint with a submission path behind it. -/
theorem addresses_extended {u : Url} (h : u.Canonical) {applicationId documentType : String} {id : Uuid}
    (htype : Submission.IsDocumentType documentType) :
    Addresses (Metadata.withoutTrailingSlashes u.text ++ Submission.path applicationId documentType id) u
      (Submission.path applicationId documentType id)
      (u.extended (Submission.segments applicationId documentType id)) := by
  let l := Submission.segments applicationId documentType id
  have hl := @documentChars_of_segments applicationId documentType id htype
  have hpath : (Submission.path applicationId documentType id).toList = pathChars l :=
    Submission.toList_path applicationId documentType id
  have htext : Metadata.withoutTrailingSlashes u.text ++ Submission.path applicationId documentType id =
      (u.extended l).text := by
    rw [← String.toList_inj, String.toList_append, toList_withoutTrailingSlashes, hpath, text, text,
      String.toList_ofList, String.toList_ofList, h.chars_extended]
  have hserver : (u.extended l).secure = u.secure ∧ (u.extended l).userinfo = u.userinfo ∧
      (u.extended l).host = u.host ∧ (u.extended l).port = u.port := by
    unfold extended
    split <;> exact ⟨rfl, rfl, rfl, rfl⟩
  obtain ⟨hsecure, huserinfo, hhost, hport⟩ := hserver
  refine ⟨htext, fun hread => ?_, hsecure, huserinfo, hhost, hport, fun hq hf => ?_, fun q hq hf => ?_,
    fun f hf => ?_⟩
  · rw [htext]
    exact (h.extended hl (List.cons_ne_nil _ _)).parse_text (hhost ▸ hread)
  · have htrimmed : trimmed ([] ++ pathChars u.path) = [] ++ pathChars (front u.path) :=
      trimmed_append_pathChars rfl fun s hs hslash => ((h.segments s hs).whole _ hslash).1 rfl
    rw [List.nil_append, List.nil_append] at htrimmed
    rw [extended_of_path _ hf hq, pathChars_append, htrimmed, hpath]
    exact ⟨rfl, hq, hf⟩
  · rw [extended_of_query _ hf hq, hpath]
    exact ⟨rfl, rfl⟩
  · rw [extended_of_fragment _ hf, hpath]
    exact ⟨rfl, rfl, rfl⟩

end Url

/-- **What a request addresses.** Whatever text an endpoint was given as, a request for a ping assembled
under it goes to the scheme, host and port that were read. -/
theorem request_addresses {endpoint : String} {c : Configuration}
    (hendpoint : Configuration.parseEndpoint endpoint = .ok c.endpoint) {r : Assembly.Request}
    {s : Snapshot} {limit : Nat} {id : Uuid} {made : Time.Instant} {p : Ping} {drew : Bool}
    (h : Assembly.assemble r c s limit id made = (.ok p, drew)) (c₂ : Configuration) (compress : Bool)
    (now : Time.Instant) :
    ∃ v, Url.Addresses (Upload.Request.ofPing c₂ compress now p).url c.endpoint p.metadata.path v := by
  have hcanonical : c.endpoint.Canonical := by
    unfold Configuration.parseEndpoint at hendpoint
    split at hendpoint
    · cases hendpoint
    · cases hendpoint
    · rename_i u hu
      cases hendpoint
      exact Url.canonical_of_parse hu
  have htype := Submission.isDocumentType_of_assemble h
  obtain rfl := Assembly.eq_ping_of_assemble h
  exact ⟨_, Url.addresses_extended hcanonical htype⟩

/-! ## Two endpoints -/

/-- An endpoint with a user, a port, a path of its own and slashes at the end of that. -/
def Url.ofCollector : Url :=
  ⟨true, "user:pw".toList, .domain "collector.example.com".toList, some 8443, ["in".toList, [], []], none,
    none⟩

/-- An endpoint that ends in a query. -/
def Url.ofKey : Url :=
  ⟨true, [], .domain "collector.example.com".toList, none, ["in".toList], some "key=1".toList, none⟩

theorem parseEndpoint_ofCollector :
    Configuration.parseEndpoint "https://user:pw@collector.example.com:8443/in//" = .ok .ofCollector :=
  Settings.eq_ok_of_toOption (by decide +kernel)

theorem parseEndpoint_ofKey :
    Configuration.parseEndpoint "https://collector.example.com/in?key=1" = .ok .ofKey :=
  Settings.eq_ok_of_toOption (by decide +kernel)

theorem parseHost_collector : Url.parseHost "collector.example.com".toList =
    .ok (.domain "collector.example.com".toList) :=
  Settings.eq_ok_of_toOption (by decide +kernel)

/-- The configuration of the application "app" for an endpoint. -/
def Configuration.ofEndpoint (u : Url) : Configuration := { Configuration.ofId "app" with endpoint := u }

/-- The ping of one event under it. -/
def Ping.ofEndpoint (u : Url) : Ping :=
  Assembly.ping ⟨"events", none, none⟩ (.ofEndpoint u) .ofOneEvent (.drawn 3) ⟨0, 0, representable_zero⟩

/-- The endpoint is not in the document. -/
theorem assemble_ofEndpoint (u : Url) : Assembly.assemble ⟨"events", none, none⟩ (.ofEndpoint u)
    .ofOneEvent LifecycleSettings.standard.maxPingSize (.drawn 3) ⟨0, 0, representable_zero⟩ =
      (.ok (.ofEndpoint u), true) := by
  have hshort : (Assembly.document ⟨"events", none, none⟩ (.ofId "app") (.drawn 3)
      .ofOneEvent).chars.length ≤ 1000 := by decide +kernel
  exact assemble_of_short (by decide) hshort (by decide)

/-- The slashes go, and the path stands behind the endpoint's own. -/
theorem request_of_collector :
    let r := Upload.Request.ofPing (.ofId "app") true ⟨0, 0, representable_zero⟩ (.ofEndpoint .ofCollector)
    r.url = "https://user:pw@collector.example.com:8443/in/submit/app/events/1/" ++
      "00000000-0000-4000-8000-000000000003" ∧
    ∃ v, Url.parse r.url = .ok (.web v) ∧ v.port = some 8443 ∧ v.query = none ∧ v.fragment = none ∧
      Url.pathChars v.path = "/in/submit/app/events/1/00000000-0000-4000-8000-000000000003".toList := by
  obtain ⟨v, hv⟩ := request_addresses (c := .ofEndpoint .ofCollector) parseEndpoint_ofCollector
    (assemble_ofEndpoint .ofCollector) (.ofId "app") true ⟨0, 0, representable_zero⟩
  obtain ⟨hpath, hquery, hfragment⟩ := hv.onPath rfl rfl
  have hurl : (Ping.ofEndpoint .ofCollector).url =
      "https://user:pw@collector.example.com:8443/in/submit/app/events/1/" ++
        "00000000-0000-4000-8000-000000000003" := by decide +kernel
  exact ⟨hurl, v, hv.reads parseHost_collector, hv.port, hquery, hfragment,
    hpath.trans (by decide +kernel)⟩

/-- Behind a query the path is no path: it is the end of the query. -/
theorem request_of_key :
    let p : Ping := .ofEndpoint .ofKey
    Assembly.assemble ⟨"events", none, none⟩ (.ofEndpoint .ofKey) .ofOneEvent
      LifecycleSettings.standard.maxPingSize (.drawn 3) ⟨0, 0, representable_zero⟩ = (.ok p, true) ∧
    Configuration.parseEndpoint "https://collector.example.com/in?key=1" =
      .ok (Configuration.ofEndpoint .ofKey).endpoint ∧
    p.url =
      "https://collector.example.com/in?key=1/submit/app/events/1/00000000-0000-4000-8000-000000000003" ∧
    Configuration.parseEndpoint p.url = .ok { Url.ofKey with
      query := some "key=1/submit/app/events/1/00000000-0000-4000-8000-000000000003".toList } := by
  have hurl : (Ping.ofEndpoint .ofKey).url =
      "https://collector.example.com/in?key=1/submit/app/events/1/00000000-0000-4000-8000-000000000003" := by
    decide +kernel
  refine ⟨assemble_ofEndpoint .ofKey, parseEndpoint_ofKey, hurl, ?_⟩
  rw [hurl]
  exact Settings.eq_ok_of_toOption (by decide +kernel)

end PingDelivery
