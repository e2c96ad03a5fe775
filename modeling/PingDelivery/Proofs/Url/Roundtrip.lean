import PingDelivery.Proofs.Url.Canonical
import Mathlib.Data.List.TakeWhile

/-! # Web addresses are read back

The text of a canonical address is cut at the characters that the reader cuts at, and none of them stands
inside a part: so each part is found again, and reading it changes nothing. Of the host this is asked as
a premise, as a domain's labels may be longer in writing than a reader takes.
-/

namespace PingDelivery
namespace Url

/-! ## Cuts -/

theorem splitAt_marked {mark : Char} {s : List Char} (h : mark ∉ s) (o : Option (List Char)) :
    splitAt mark (s ++ marked mark o) = (s, o) := by
  have hs : ∀ c ∈ s, decide (c ≠ mark) = true := fun c hc =>
    decide_eq_true fun heq => h (heq ▸ hc)
  cases o with
  | none =>
    have htake : s.takeWhile (· ≠ mark) = s := List.takeWhile_eq_self_iff.2 hs
    rw [marked, List.append_nil, splitAt, htake, List.drop_length]
    rfl
  | some t =>
    have htake : (s ++ mark :: t).takeWhile (· ≠ mark) = s := by
      rw [List.takeWhile_append_of_pos hs, List.takeWhile_cons_of_neg (by simp), List.append_nil]
    rw [marked, splitAt, htake, List.drop_left]
    rfl

theorem mem_marked {mark c : Char} {o : Option (List Char)} (h : c ∈ marked mark o) :
    c = mark ∨ ∃ s, o = some s ∧ c ∈ s := by
  cases o with
  | none => cases h
  | some s => exact (List.mem_cons.1 h).imp_right fun hc => ⟨s, rfl, hc⟩

theorem splitUserinfo_of_not_mem {s : List Char} (h : '@' ∉ s) : splitUserinfo s = (none, s) := by
  rw [splitUserinfo, if_neg]
  simpa using h

/-- The last @ parts the user from the host. -/
theorem splitUserinfo_append (s : List Char) {t : List Char} (h : '@' ∉ t) :
    splitUserinfo (s ++ '@' :: t) = (some s, t) := by
  have hback : (s ++ '@' :: t).reverse.takeWhile (· ≠ '@') = t.reverse := by
    have ht : ∀ c ∈ t.reverse, decide (c ≠ '@') = true := fun c hc =>
      decide_eq_true fun heq => h (heq ▸ List.mem_reverse.1 hc)
    rw [List.reverse_append, List.reverse_cons, List.append_assoc, List.takeWhile_append_of_pos ht,
      List.singleton_append, List.takeWhile_cons_of_neg (by decide), List.append_nil]
  have hlength : (s ++ '@' :: t).length - t.reverse.length - 1 = s.length := by
    rw [List.length_append, List.length_cons, List.length_reverse]
    omega
  rw [splitUserinfo, if_pos (by simp)]
  simp only [hback, hlength, List.take_left, List.reverse_reverse]

theorem spanAuthority_append {s r : List Char} (hs : ∀ c ∈ s, endsAuthority .special c = false)
    (hr : ∃ t, r = '/' :: t) : spanAuthority .special (s ++ r) = (s, r) := by
  obtain ⟨t, rfl⟩ := hr
  have hs' : ∀ c ∈ s, (!endsAuthority .special c) = true := fun c hc => by rw [hs c hc]; rfl
  have htake : (s ++ '/' :: t).takeWhile (!endsAuthority .special ·) = s := by
    rw [List.takeWhile_append_of_pos hs', List.takeWhile_cons_of_neg (by decide), List.append_nil]
  rw [spanAuthority, htake, List.drop_left]

/-! ## Ports -/

/-- Counting stops where no port goes. -/
theorem foldl_min (ds : List Char) (n : Nat) :
    ds.foldl (fun n c => Nat.min (10 * n + (c.toNat - 48)) 65536) (Nat.min n 65536) =
      Nat.min (Nat.ofDigitChars 10 ds n) 65536 := by
  induction ds generalizing n with
  | nil => rfl
  | cons c ds ih =>
    have hstep : Nat.min (10 * Nat.min n 65536 + (c.toNat - 48)) 65536 =
        Nat.min (10 * n + (c.toNat - 48)) 65536 := by
      change min (10 * min n 65536 + (c.toNat - 48)) 65536 = min (10 * n + (c.toNat - 48)) 65536
      omega
    rw [List.foldl_cons, hstep, ih, Nat.ofDigitChars_cons]
    rfl

theorem parsePort_toDigits {p : Nat} {default? : Option Nat} (hle : p ≤ 65535)
    (hne : default? ≠ some p) : parsePort default? (Nat.toDigits 10 p) = .ok (some p) := by
  have hdigits : (Nat.toDigits 10 p).all Char.isDigit = true :=
    List.all_eq_true.2 fun c hc => Nat.isDigit_of_mem_toDigits (by decide) (by decide) hc
  have hvalue : (Nat.toDigits 10 p).foldl (fun n c => Nat.min (10 * n + (c.toNat - 48)) 65536) 0 = p := by
    have hfold := foldl_min (Nat.toDigits 10 p) 0
    rw [Nat.ofDigitChars_ten_toDigits] at hfold
    exact hfold.trans (Nat.min_eq_left (by omega))
  rw [parsePort, if_pos hdigits, if_neg (by simp [Nat.toDigits_ne_nil])]
  simp only [hvalue]
  rw [if_neg (by omega), if_neg fun heq => hne heq.symm]

/-! ## The authority -/

/-- The port as it stands behind the host. -/
def portChars : Option Nat → List Char
  | none => []
  | some p => ':' :: Nat.toDigits 10 p

theorem authorityChars_eq (u : Url) : u.authorityChars =
    (if u.userinfo.isEmpty then [] else u.userinfo ++ ['@']) ++ (u.host.chars ++ portChars u.port) := by
  rw [authorityChars, List.append_assoc]
  rfl

theorem inner_portChars {port : Option Nat} {c : Char} (h : c ∈ portChars port) : Inner c := by
  cases port with
  | none => cases h
  | some p =>
    rcases List.mem_cons.1 h with rfl | h
    · exact ⟨by decide, by decide, by decide⟩
    · obtain ⟨d, hd, rfl⟩ := exists_digitChar_of_mem_toDigits (by decide) h
      exact (inner_digitChar (by omega)).1

namespace Canonical
variable {u : Url} (h : u.Canonical)
include h

theorem inner_server {c : Char} (hc : c ∈ u.host.chars ++ portChars u.port) : Inner c :=
  (List.mem_append.1 hc).elim h.host.inner inner_portChars

theorem authority {c : Char} (hc : c ∈ u.authorityChars) :
    32 < c.toNat ∧ endsAuthority .special c = false := by
  rw [authorityChars_eq] at hc
  rcases List.mem_append.1 hc with hc | hc
  · split at hc
    · cases hc
    · rcases List.mem_append.1 hc with hc | hc
      · exact ⟨(h.userinfo.inner hc).shown, (h.userinfo.inner hc).inside⟩
      · obtain rfl := List.mem_singleton.1 hc
        exact ⟨by decide, by decide⟩
  · exact ⟨(h.inner_server hc).shown, (h.inner_server hc).inside⟩

theorem authority_ne_nil : u.authorityChars ≠ [] := by
  rw [authorityChars_eq]
  exact List.append_ne_nil_of_right_ne_nil _ (List.append_ne_nil_of_left_ne_nil h.host.ne_nil _)

/-- The user is found again in front of the host. -/
theorem splitUserinfo_eq : ∃ user?, splitUserinfo u.authorityChars =
    (user?, u.host.chars ++ portChars u.port) ∧ userinfoChars (user?.getD []) = u.userinfo := by
  have hat : '@' ∉ u.host.chars ++ portChars u.port := fun hmem => (h.inner_server hmem).noAt rfl
  rw [authorityChars_eq]
  cases hu : u.userinfo.isEmpty with
  | true =>
    refine ⟨none, splitUserinfo_of_not_mem hat, ?_⟩
    rw [List.isEmpty_iff.1 hu]
    rfl
  | false =>
    refine ⟨some u.userinfo, ?_, userinfoChars_eq h.userinfo⟩
    rw [if_neg Bool.false_ne_true, List.append_assoc, List.singleton_append,
      splitUserinfo_append _ hat]

theorem parseAuthority_eq (hhost : parseHost u.host.chars = .ok u.host) (more : Bool) :
    parseAuthority .special (some (defaultPort u.secure)) u.authorityChars more =
      .ok ⟨u.userinfo, u.host, u.port⟩ := by
  obtain ⟨user?, hsplit, huser⟩ := h.splitUserinfo_eq
  have hspan : spanHost false (u.host.chars ++ portChars u.port) =
      (u.host.chars, portChars u.port) := by
    refine spanHost_chars h.host ?_
    cases u.port with
    | none => exact .inl rfl
    | some p => exact .inr ⟨_, rfl⟩
  have hne : u.host.chars.isEmpty = false := List.isEmpty_eq_false_iff.2 h.host.ne_nil
  have hserver : (u.host.chars ++ portChars u.port).isEmpty = false :=
    List.isEmpty_eq_false_iff.2 (List.append_ne_nil_of_left_ne_nil h.host.ne_nil _)
  unfold parseAuthority
  simp only [hsplit, hspan, huser, hne, hserver, hhost, bind, Except.bind, pure, Except.pure,
    Bool.false_eq_true, false_and, and_false, if_false, reduceCtorEq]
  cases hport : u.port with
  | none => rfl
  | some p =>
    obtain ⟨hle, hdefault⟩ := h.port p hport
    have hdigits : (Nat.toDigits 10 p).takeWhile (· ≠ '\\') = Nat.toDigits 10 p := by
      refine List.takeWhile_eq_self_iff.2 fun c hc => decide_eq_true fun heq => ?_
      have hdigit := Nat.isDigit_of_mem_toDigits (b := 10) (by decide) (by decide) hc
      rw [heq] at hdigit
      revert hdigit
      decide
    simp only [portChars, hdigits,
      parsePort_toDigits hle fun heq => hdefault (Option.some.inj heq).symm]

/-! ## The path and what follows it -/

/-- Nothing in a path ends it. -/
theorem mem_path {c : Char} (hc : c ∈ pathChars u.path) :
    32 < c.toNat ∧ c ≠ '#' ∧ c ≠ '?' ∧ c ≠ '\\' := by
  rw [pathChars_eq_intercalate] at hc
  rcases mem_of_mem_intercalate hc with rfl | ⟨s, hs, hc⟩
  · decide
  · rcases List.mem_cons.1 hs with rfl | hs
    · cases hc
    · have hsegment := h.segments s hs
      obtain ⟨hshown, hhash, hquestion⟩ := of_not_inPath (hsegment.settled c hc).2
      exact ⟨hshown, hhash, hquestion, (hsegment.whole c hc).2⟩

theorem mem_query {c : Char} (hc : c ∈ marked '?' u.query) : 32 < c.toNat ∧ c ≠ '#' := by
  rcases mem_marked hc with rfl | ⟨q, hq, hc⟩
  · decide
  · exact of_not_inQuery (h.query q hq c hc).2

theorem mem_fragment {c : Char} (hc : c ∈ marked '#' u.fragment) : 32 < c.toNat := by
  rcases mem_marked hc with rfl | ⟨f, hf, hc⟩
  · decide
  · exact shown_of_not_inFragment (h.fragment f hf c hc).2

theorem splitFragment_eq : splitAt '#' (pathChars u.path ++ marked '?' u.query ++ marked '#' u.fragment) =
    (pathChars u.path ++ marked '?' u.query, u.fragment) := by
  refine splitAt_marked (fun hmem => ?_) u.fragment
  exact (List.mem_append.1 hmem).elim (fun hc => (h.mem_path hc).2.1 rfl) fun hc => (h.mem_query hc).2 rfl

theorem splitQuery_eq : splitAt '?' (pathChars u.path ++ marked '?' u.query) =
    (pathChars u.path, u.query) :=
  splitAt_marked (fun hmem => (h.mem_path hmem).2.2.1 rfl) u.query

/-- The path is read as it is kept. -/
theorem normalizePath_eq : normalizePath ((pathChars u.path).map fun c => if c = '\\' then '/' else c) =
    u.path := by
  have hmap : (pathChars u.path).map (fun c => if c = '\\' then '/' else c) = pathChars u.path :=
    (List.map_congr_left fun c hc => if_neg (h.mem_path hc).2.2.2).trans (List.map_id _)
  rw [hmap, normalizePath_pathChars h.path h.segments]

/-- The text behind the scheme is read. -/
theorem parseWeb_eq (hhost : parseHost u.host.chars = .ok u.host) :
    parseWeb u.secure ("//".toList ++ (u.authorityChars ++
      (pathChars u.path ++ marked '?' u.query ++ marked '#' u.fragment))) = .ok u := by
  obtain ⟨s, r, hpath⟩ := List.exists_cons_of_ne_nil h.path
  obtain ⟨c, a, hauthority⟩ := List.exists_cons_of_ne_nil h.authority_ne_nil
  have hslashes : ("//".toList ++ (u.authorityChars ++ (pathChars u.path ++ marked '?' u.query ++
      marked '#' u.fragment))).dropWhile (isSlash .special) = u.authorityChars ++
      (pathChars u.path ++ marked '?' u.query ++ marked '#' u.fragment) := by
    have hinside := (h.authority (hauthority ▸ List.mem_cons_self : c ∈ u.authorityChars)).2
    have hslash : isSlash .special c = false := by
      rw [endsAuthority, Bool.or_eq_false_iff, Bool.or_eq_false_iff] at hinside
      exact hinside.1.1
    have hstart : "//".toList = ['/', '/'] := rfl
    rw [hstart, hauthority, List.cons_append, List.cons_append, List.nil_append, List.cons_append,
      List.dropWhile_cons_of_pos rfl, List.dropWhile_cons_of_pos rfl, List.dropWhile_cons_of_neg]
    rw [hslash]
    exact Bool.false_ne_true
  have hspan := spanAuthority_append (s := u.authorityChars)
    (r := pathChars u.path ++ marked '?' u.query ++ marked '#' u.fragment)
    (fun c hc => (h.authority hc).2) ⟨s ++ pathChars r ++ marked '?' u.query ++ marked '#' u.fragment, by
      rw [hpath]
      simp [pathChars]⟩
  have hquery : u.query.map (encode inQuery) = u.query := by
    cases hq : u.query with
    | none => rfl
    | some q => exact congrArg some (h.query q hq).encode_eq
  have hfragment : u.fragment.map (encode inFragment) = u.fragment := by
    cases hf : u.fragment with
    | none => rfl
    | some f => exact congrArg some (h.fragment f hf).encode_eq
  unfold parseWeb
  simp only [hslashes, hspan, h.parseAuthority_eq hhost, h.splitFragment_eq, h.splitQuery_eq,
    h.normalizePath_eq, hquery, hfragment, bind, Except.bind, pure, Except.pure]

end Canonical

theorem significant_eq {s : String} (h : ∀ c ∈ s.toList, 32 < c.toNat) : significant s = s.toList := by
  have hfront {t : List Char} (ht : ∀ c ∈ t, 32 < c.toNat) : t.dropWhile isTrimmed = t := by
    cases t with
    | nil => rfl
    | cons c t =>
      refine List.dropWhile_cons_of_neg ?_
      rw [isTrimmed, decide_eq_true_eq, Nat.not_le]
      exact ht c List.mem_cons_self
  have hline : s.toList.filter (!isLineChar ·) = s.toList := by
    refine List.filter_eq_self.2 fun c hc => ?_
    have hshown := h c hc
    rw [Bool.not_eq_true', isLineChar, Bool.or_eq_false_iff, Bool.or_eq_false_iff]
    refine ⟨⟨?_, ?_⟩, ?_⟩
    all_goals
      refine beq_eq_false_iff_ne.2 fun heq => ?_
      subst heq
      revert hshown
      decide
  rw [significant, hfront h, hfront (fun c hc => h c (List.mem_reverse.1 hc)), List.reverse_reverse, hline]

theorem splitScheme_scheme (u : Url) (r : List Char) :
    splitScheme (u.scheme.toList ++ ':' :: r) = some (u.scheme.toList, r) := by
  unfold scheme
  split <;> rfl

theorem Canonical.shown {u : Url} (h : u.Canonical) {c : Char} (hc : c ∈ u.chars) : 32 < c.toNat := by
  simp only [chars, List.mem_append] at hc
  rcases hc with ((((hc | hc) | hc) | hc) | hc) | hc
  · have hscheme : u.scheme.toList.all (32 < ·.toNat) = true := by
      unfold scheme
      split <;> decide
    exact of_decide_eq_true (List.all_eq_true.1 hscheme c hc)
  · have hmark : "://".toList.all (32 < ·.toNat) = true := by decide
    exact of_decide_eq_true (List.all_eq_true.1 hmark c hc)
  · exact (h.authority hc).1
  · exact (h.mem_path hc).1
  · exact (h.mem_query hc).1
  · exact h.mem_fragment hc

/-- **The text of a canonical address is read as that address**, if its host is. -/
theorem Canonical.parse_text {u : Url} (h : u.Canonical) (hhost : parseHost u.host.chars = .ok u.host) :
    parse u.text = .ok (.web u) := by
  have hchars : u.text.toList = u.scheme.toList ++ ':' :: ("//".toList ++ (u.authorityChars ++
      (pathChars u.path ++ marked '?' u.query ++ marked '#' u.fragment))) := by
    rw [text, String.toList_ofList, chars, show "://".toList = ':' :: "//".toList by rfl]
    simp only [List.append_assoc, List.cons_append]
  have hsignificant : significant u.text = u.text.toList := significant_eq fun c hc => by
    rw [text, String.toList_ofList] at hc
    exact h.shown hc
  have hweb := h.parseWeb_eq hhost
  rw [parse, hsignificant, hchars, splitScheme_scheme]
  simp only
  cases hsecure : u.secure with
  | false =>
    rw [hsecure] at hweb
    rw [if_pos (by rw [scheme, hsecure]; rfl), hweb]
    rfl
  | true =>
    rw [hsecure] at hweb
    rw [if_neg (by rw [scheme, hsecure]; decide), if_pos (by rw [scheme, hsecure]; rfl), hweb]
    rfl

end Url
end PingDelivery
