import PingDelivery.Proofs.Queue.Resumption
import PingDelivery.Proofs.Store.Media
import PingDelivery.Proofs.Text.Characters

/-! # Keys of other programs

Other programs may have written anything into a tree. Three grammars meet when it is opened: the tree
lists every key that is text, keys that read as ids are taken for those of pings, and the store takes
only keys that could name a file. A key that reads as an id is one that the store takes, unless it is
`Wrapped`, in braces or as a URN. Over a tree without wrapped ids and overlong records opening succeeds
and leaves what is not a ping's alone; one wrapped id fails every opening, now and later.
-/

namespace PingDelivery

/-! ## How ids are spelled -/

namespace Uuid
open Store

theorem isKeyChar_of_hexValue? {c : Char} {n : Nat} (h : Bytes.hexValue? c = some n) :
    isKeyChar c = true := by
  have halphanum : c.isAlphanum = true := by
    unfold Bytes.hexValue? at h
    rw [Text.isAlphanum_iff]
    split at h
    · rename_i hdigit
      exact .inr (Char.isDigit_iff_toNat.2 hdigit)
    · split at h
      · rename_i hlower
        have hbounds : 97 ≤ c.toNat ∧ c.toNat ≤ 102 := hlower
        exact .inl (.inr (Text.isLower_iff.2 (by omega)))
      · split at h
        · rename_i hupper
          have hbounds : 65 ≤ c.toNat ∧ c.toNat ≤ 70 := hupper
          exact .inl (.inl (Text.isUpper_iff.2 (by omega)))
        · cases h
  rw [isKeyChar, halphanum, Bool.true_or, Bool.true_or]

theorem isKeyChar_of_ofDigits? {s : List Char} {u : Uuid} (h : ofDigits? s = some u) :
    ∀ c ∈ s, isKeyChar c = true := by
  obtain ⟨b, hb, -⟩ := Option.bind_eq_some_iff.1 h
  clear h
  fun_induction Bytes.ofHexChars? s generalizing b with
  | case1 => exact nofun
  | case2 => cases hb
  | case3 high low r ih =>
    simp only [Option.bind_eq_bind, Option.bind_eq_some_iff] at hb
    obtain ⟨n, hhigh, m, hlow, rest, hrest, -⟩ := hb
    intro c hc
    rcases List.mem_cons.1 hc with rfl | hc
    · exact isKeyChar_of_hexValue? hhigh
    · rcases List.mem_cons.1 hc with rfl | hc
      · exact isKeyChar_of_hexValue? hlow
      · exact ih rest hrest c hc

/-- Nothing but hyphens is taken out. -/
theorem mem_of_unhyphenate {gs : List Nat} {s r : List Char} (h : unhyphenate gs s = some r) :
    ∀ c ∈ s, c = '-' ∨ c ∈ r := by
  fun_induction unhyphenate gs s generalizing r with
  | case1 n m gs s hhead ih =>
    obtain ⟨r', hr', rfl⟩ := Option.map_eq_some_iff.1 h
    have hdrop : s.drop n = '-' :: s.drop (n + 1) := by
      rw [← List.drop_drop]
      exact (List.cons_head?_tail hhead).symm.trans (by rw [List.drop_one])
    intro c hc
    rw [← List.take_append_drop n s, hdrop] at hc
    rcases List.mem_append.1 hc with hc | hc
    · exact .inr (List.mem_append_left _ hc)
    · rcases List.mem_cons.1 hc with hc | hc
      · exact .inl hc
      · exact (ih hr' c hc).imp_right (List.mem_append_right _)
  | case2 => cases h
  | case3 =>
    cases h
    exact fun _ hc => .inr hc

theorem isKeyChar_of_ofHyphenated? {s : List Char} {u : Uuid} (h : ofHyphenated? s = some u) :
    ∀ c ∈ s, isKeyChar c = true := by
  obtain ⟨r, hr, hu⟩ := Option.bind_eq_some_iff.1 h
  intro c hc
  rcases mem_of_unhyphenate hr c hc with rfl | hc
  · rfl
  · exact isKeyChar_of_ofDigits? hu c hc

/-- An id in braces or as a URN. -/
def Wrapped (k : String) : Prop :=
  (parse? k).isSome = true ∧ (k.toList.head? = some '{' ∨ k.toList.take 9 = "urn:uuid:".toList)

instance (k : String) : Decidable (Wrapped k) := inferInstanceAs (Decidable (_ ∧ _))

theorem not_validKey_of_wrapped {k : String} (h : Wrapped k) : ¬ ValidKey k := by
  rintro ⟨-, -, hall⟩
  have hkey := List.all_eq_true.1 hall
  obtain ⟨-, hbrace | hurn⟩ := h
  · exact absurd (hkey '{' (List.mem_of_mem_head? hbrace)) (by decide)
  · have hcolon : ':' ∈ k.toList.take 9 := by
      rw [hurn]
      decide
    exact absurd (hkey ':' (List.mem_of_mem_take hcolon)) (by decide)

/-- **The store takes an id as a key unless it is wrapped.** -/
theorem validKey_iff_not_wrapped {k : String} (h : (parse? k).isSome = true) :
    ValidKey k ↔ ¬ Wrapped k := by
  refine ⟨fun hv hw => not_validKey_of_wrapped hw hv, fun hw => ?_⟩
  have hvalid {n : Nat} (hlength : k.toList.length = n + 1) (hn : n < 128)
      (hall : ∀ c ∈ k.toList, isKeyChar c = true) : ValidKey k := by
    refine ⟨List.ne_nil_of_length_eq_add_one hlength, ?_, List.all_eq_true.2 hall⟩
    omega
  obtain ⟨u, hu⟩ := Option.isSome_iff_exists.1 h
  unfold parse? parseChars? at hu
  split at hu
  · rename_i hlength
    exact hvalid hlength (by decide) (isKeyChar_of_ofDigits? hu)
  · split at hu
    · rename_i hlength
      exact hvalid hlength (by decide) (isKeyChar_of_ofHyphenated? hu)
    · split at hu
      · rename_i hbraced
        exact absurd ⟨h, .inl hbraced.2.1⟩ hw
      · split at hu
        · rename_i hurn
          exact absurd ⟨h, .inr hurn.2⟩ hw
        · cases hu

end Uuid

/-! ## The tree, whatever it holds -/

namespace Store.Tree
variable {t : Tree} {k : String}

theorem Proper.insertRaw (h : Proper t) (key value : Bytes) : Proper (t.insertRaw key value) := by
  intro s hs
  rcases Dict.mem_keys_insert hs with rfl | hs
  · exact ⟨key, rfl⟩
  · exact h s hs

theorem Proper.serve (h : Proper t) (c : Call) : Proper (serve c t).2.1 := by
  cases c with
  | put k b =>
    by_cases hk : ValidKey k
    · simp only [Tree.serve, if_pos hk]
      exact h.insertRaw (Bytes.ofText k) b
    · simp only [Tree.serve, if_neg hk]
      exact h
  | delete k =>
    by_cases hk : ValidKey k
    · simp only [Tree.serve, if_pos hk]
      exact fun s hs => h s (Dict.mem_keys_erase hs)
    · simp only [Tree.serve, if_neg hk]
      exact h
  | get k | list => exact h

/-- The tree keeps the promise of a store under every key that is text. -/
theorem Proper.served (h : Proper t) (c : Call) :
    Served c t.held (Tree.serve c t).1 (Tree.serve c t).2.1.held := by
  by_cases hv : ∀ k ∈ c.key?, ValidKey k
  · cases c with
    | put k b =>
      have heffect : held ⟨t.records.insert (slot k) b⟩ = (Call.put k b).effect t.held := by
        funext k'
        simp only [held, Dict.get?_insert, slot_inj, Call.effect, Function.update_apply]
      simp only [Tree.serve, if_pos (hv k rfl)]
      rw [heffect]
      exact .answered (c := .put k b) () trivial
    | get k =>
      simp only [Tree.serve, if_pos (hv k rfl)]
      exact .answered (c := .get k) (t.records.get? (slot k)) rfl
    | delete k =>
      have heffect : held ⟨t.records.erase (slot k)⟩ = (Call.delete k).effect t.held := by
        funext k'
        simp only [held, Dict.get?_erase, slot_inj, Call.effect, Function.update_apply]
      simp only [Tree.serve, if_pos (hv k rfl)]
      rw [heffect]
      exact .answered (c := .delete k) () trivial
    | list => exact .answered (c := .list) t.keys ⟨h.nodup_keys, fun _ => h.mem_keys.2⟩
  · push Not at hv
    obtain ⟨k, hk, hk'⟩ := hv
    rw [refuses t hk hk']
    exact .failed _

/-- The trace begins with what the tree has answered to the first call. -/
theorem Proper.call_follows {α : Type} (h : Proper t) {c : Call} (next : Result c → Program α) :
    ∃ tr, Follows (.call c next) t.held (.called c (Tree.serve c t).1 :: tr)
      (some ((Program.call c next).run backend t).1)
      ((Program.call c next).run backend t).2.1.held := by
  have hserved (c : Call) (t : Tree) (ht : Proper t) :
      Served c t.held (backend.serve c t).1 (backend.serve c t).2.1.held := ht.served c
  have hstays (c : Call) (t : Tree) (ht : Proper t) : Proper (backend.serve c t).2.1 := ht.serve c
  obtain ⟨tr, hnext⟩ := Program.run_follows hserved hstays (next (Tree.serve c t).1) (h.serve c)
  exact ⟨tr, .call (h.served c) hnext⟩

/-- A slot that is not that of a key the store takes is out of reach. -/
theorem get?_serve {s : String} (hs : ∀ k, ValidKey k → s ≠ slot k) (c : Call) :
    (serve c t).2.1.records.get? s = t.records.get? s := by
  cases c with
  | put k b =>
    by_cases hk : ValidKey k
    · simp only [serve, if_pos hk, Dict.get?_insert, if_neg (hs k hk)]
    · simp only [serve, if_neg hk]
  | delete k =>
    by_cases hk : ValidKey k
    · simp only [serve, if_pos hk, Dict.get?_erase, if_neg (hs k hk)]
    · simp only [serve, if_neg hk]
  | get k | list => rfl

theorem get?_run {α : Type} {s : String} (hs : ∀ k, ValidKey k → s ≠ slot k) (p : Program α)
    (t : Tree) : (p.run backend t).2.1.records.get? s = t.records.get? s := by
  have hstays (c : Call) (t' : Tree) (h : t'.records.get? s = t.records.get? s) :
      (backend.serve c t').2.1.records.get? s = t.records.get? s := (get?_serve hs c).trans h
  exact p.run_keeps hstays rfl

theorem Proper.run {α : Type} (h : Proper t) (p : Program α) : Proper (p.run backend t).2.1 :=
  p.run_keeps (fun c _ h => h.serve c) h

/-- No program touches a key that the store does not take. -/
theorem Proper.mem_keys_run {α : Type} (h : Proper t) (p : Program α) (hk : k ∈ t.keys)
    (hv : ¬ ValidKey k) : k ∈ (p.run backend t).2.1.keys := by
  have hreach : ∀ k', ValidKey k' → slot k ≠ slot k' := by
    intro k' hk' heq
    exact hv (slot_inj.1 heq ▸ hk')
  rw [(h.run p).mem_keys, held, get?_run hreach]
  exact h.mem_keys.1 hk

end Store.Tree

namespace Queue
open Store

/-! ## Opening over a tree -/

section
variable {keys : List String} {c : Config} {t : Tree}

theorem gives_told {α σ : Type} {b : Backend σ} {n : Option Notice} {p : Program α} {s s' : σ} {a : α}
    (h : p.Gives b s a s') : (told n p).Gives b s a s' := by
  cases n with
  | none => exact h
  | some n => exact h.tell

theorem gives_get {α : Type} {k : String} {next : Result (.get k) → Program α} {a : α} {u : Tree}
    (hk : ValidKey k) (h : (next (.ok (t.held k))).Gives Tree.backend t a u) :
    (Program.call (.get k) next).Gives Tree.backend t a u := by
  have hserve : Tree.backend.serve (.get k) t = (.ok (t.held k), t, []) := by
    simp only [Tree.backend, Tree.serve, if_pos hk]
    rfl
  refine .call (congrArg Prod.fst hserve) ?_
  rw [hserve]
  exact h

theorem gives_delete {α : Type} {k : String} {next : Result (.delete k) → Program α} {a : α}
    {u : Tree} (hk : ValidKey k)
    (h : (next (.ok ())).Gives Tree.backend ⟨t.records.erase (Tree.slot k)⟩ a u) :
    (Program.call (.delete k) next).Gives Tree.backend t a u := by
  have hserve : Tree.backend.serve (.delete k) t =
      (.ok (), ⟨t.records.erase (Tree.slot k)⟩, []) := by
    simp only [Tree.backend, Tree.serve, if_pos hk]
  refine .call (congrArg Prod.fst hserve) ?_
  rw [hserve]
  exact h

/-- What reading the keys in front of others comes to: the others are read on from there, or it panics
before. -/
inductive Passage (keys : List String) (found : List Ping) (corrupt : Nat) (t : Tree) : Prop where
  | passed (found' : List Ping) (corrupt' : Nat) (t' : Tree)
      (hjams : ∀ k b, Jams t'.held k b → Jams t.held k b)
      (h : ∀ (rest : List String) a u, (load rest found' corrupt').Gives Tree.backend t' a u →
        (load (keys ++ rest) found corrupt).Gives Tree.backend t a u)
  | jammed {k : String} {b : Bytes} (hj : Jams t.held k b)
      (h : ∀ rest, ∃ u, (load (keys ++ rest) found corrupt).Gives Tree.backend t .panic u)

theorem jams_of_erase {k k' : String} {b : Bytes}
    (h : Jams (Tree.held ⟨t.records.erase (Tree.slot k')⟩) k b) : Jams t.held k b := by
  refine ⟨h.ping, ?_, h.panics⟩
  have hheld := h.held
  rw [Tree.held, Dict.get?_erase] at hheld
  split at hheld
  · cases hheld
  · exact hheld

/-- The record under an id that is not wrapped is read, one way or the other, unless it jams. -/
theorem passage_one {k : String} (hk : ¬ Uuid.Wrapped k) (found : List Ping) (corrupt : Nat)
    (t : Tree) : Passage [k] found corrupt t := by
  by_cases hping : Record.isPingKey k = true
  · have hk : ValidKey k := (Uuid.validKey_iff_not_wrapped hping).2 hk
    cases hheld : t.held k with
    | none =>
      refine .passed found corrupt t (fun _ _ h => h) fun rest a u h => ?_
      rw [List.singleton_append, load, if_pos hping]
      refine gives_get hk ?_
      rw [hheld]
      exact h
    | some b =>
      cases hdecode : Record.decode k b with
      | ok p =>
        refine .passed (p :: found) corrupt t (fun _ _ h => h) fun rest a u h => ?_
        rw [List.singleton_append, load, if_pos hping]
        refine gives_get hk ?_
        simp only [hheld, hdecode]
        exact h
      | panic =>
        refine .jammed ⟨hping, hheld, hdecode⟩ fun rest => ⟨t, ?_⟩
        rw [List.singleton_append, load, if_pos hping]
        refine gives_get hk ?_
        simp only [hheld, hdecode]
        exact .done _ t
      | error e =>
        refine .passed found (corrupt + 1) ⟨t.records.erase (Tree.slot k)⟩
          (fun _ _ h => jams_of_erase h) fun rest a u h => ?_
        rw [List.singleton_append, load, if_pos hping]
        refine gives_get hk ?_
        simp only [hheld, hdecode]
        exact .tell (gives_delete hk h)
  · refine .passed found corrupt t (fun _ _ h => h) fun rest a u h => ?_
    rw [List.singleton_append, load, if_neg hping]
    exact h

theorem passage (hkeys : ∀ k ∈ keys, ¬ Uuid.Wrapped k) (found : List Ping) (corrupt : Nat)
    (t : Tree) : Passage keys found corrupt t := by
  induction keys generalizing found corrupt t with
  | nil => exact .passed found corrupt t (fun _ _ h => h) fun _ _ _ h => h
  | cons k keys ih =>
    have ih := ih fun k' hk' => hkeys k' (List.mem_cons_of_mem k hk')
    rcases passage_one (hkeys k List.mem_cons_self) found corrupt t with
      ⟨found₁, corrupt₁, t₁, hjams₁, hhead⟩ | ⟨hj, hhead⟩
    · rcases ih found₁ corrupt₁ t₁ with ⟨found₂, corrupt₂, t₂, hjams₂, hrest⟩ | ⟨hj, hrest⟩
      · exact .passed found₂ corrupt₂ t₂ (fun k' b hj => hjams₁ k' b (hjams₂ k' b hj))
          fun rest a u h => hhead _ a u (hrest rest a u h)
      · refine .jammed (hjams₁ _ _ hj) fun rest => ?_
        obtain ⟨u, hu⟩ := hrest rest
        exact ⟨u, hhead _ _ u hu⟩
    · exact .jammed hj fun rest => hhead (keys ++ rest)

theorem exists_gives_trim (c : Config) (l : List Ping) (dropped : Nat) (t : Tree) :
    ∃ x u, (trim c l dropped).Gives Tree.backend t (.ok x) u := by
  induction l generalizing dropped t with
  | nil => exact ⟨_, t, .done _ t⟩
  | cons p l ih =>
    rw [trim]
    split
    · exact ⟨_, t, .done _ t⟩
    · obtain ⟨x, u, h⟩ := ih (dropped + 1) ⟨t.records.erase (Tree.slot (Record.key p.id))⟩
      exact ⟨x, u, gives_delete p.id.validKey_text h⟩

theorem exists_gives_opening (c : Config) (hkeys : ∀ k ∈ t.keys, ¬ Uuid.Wrapped k)
    (hread : NoneOverlong t.held) : ∃ q u, (rehydrate c).Gives Tree.backend t (.ok q) u := by
  rcases passage hkeys [] 0 t with ⟨found, corrupt, t₁, -, hload⟩ | ⟨hj, -⟩
  · have hloaded := hload [] _ _ (.done _ t₁)
    rw [List.append_nil] at hloaded
    obtain ⟨⟨pings, dropped⟩, u, htrim⟩ := exists_gives_trim c (ordered found.reverse) 0 t₁
    refine ⟨restored c pings corrupt dropped, u, .call rfl ?_⟩
    exact hloaded.bind (htrim.bind (gives_told (.tell (.done _ u))))
  · exact absurd hj (hread.not_jams _ _)

/-- An opening over a tree that comes to its end has made of it what it makes of any content. -/
theorem exists_resumed {q : Queue} {u : Tree} (ht : t.Proper)
    (h : (rehydrate c).Gives Tree.backend t (.ok q) u) :
    ∃ l, Roll t.keys t.held l ∧ Resumed c t.held l q u.held := by
  obtain ⟨tr, hfollows⟩ := ht.call_follows (c := .list) _
  change Follows (rehydrate c) _ _ (some ((rehydrate c).run Tree.backend t).1)
    ((rehydrate c).run Tree.backend t).2.1.held at hfollows
  rw [h.value, h.state] at hfollows
  obtain ⟨hnodup, l, hl⟩ := exists_roll hfollows
  exact ⟨l, hl, Interrupted.start.resumed hnodup hl hfollows (inOrder_listed (List.Sublist.refl _))⟩

/-- The first wrapped id fails the opening, unless it panics before. -/
theorem exists_gives_failure (c : Config) {k : String} (hk : k ∈ t.keys) (hw : Uuid.Wrapped k) :
    ∃ r u, (rehydrate c).Gives Tree.backend t r u ∧
      ((∃ k' ∈ t.keys, Uuid.Wrapped k' ∧ r = .error (.storage (.invalidKey k'))) ∨
        (r = .panic ∧ ¬ NoneOverlong t.held)) := by
  have hsome : (t.keys.find? fun k => Decidable.decide (Uuid.Wrapped k)).isSome = true :=
    List.find?_isSome.2 ⟨k, hk, decide_eq_true hw⟩
  obtain ⟨k', hfind⟩ := Option.isSome_iff_exists.1 hsome
  obtain ⟨hw', before, after, hkeys, hbefore⟩ := List.find?_eq_some_iff_append.1 hfind
  have hw' : Uuid.Wrapped k' := of_decide_eq_true hw'
  have hbefore : ∀ x ∈ before, ¬ Uuid.Wrapped x := by
    intro x hx hwrapped
    simpa [hwrapped] using hbefore x hx
  rcases passage hbefore [] 0 t with ⟨found, corrupt, t₁, -, hload⟩ | ⟨hj, hload⟩
  · have hrefused : Tree.backend.serve (.get k') t₁ = (.error (.invalidKey k'), t₁, []) :=
      t₁.refuses rfl (Uuid.not_validKey_of_wrapped hw')
    have hfails : (load (k' :: after) found corrupt).Gives Tree.backend t₁
        (.error (.invalidKey k')) t₁ := by
      have hping : Record.isPingKey k' = true := hw'.1
      rw [load, if_pos hping]
      refine .call (congrArg Prod.fst hrefused) ?_
      rw [hrefused]
      exact .done _ t₁
    have hloaded := hload (k' :: after) _ _ hfails
    rw [← hkeys] at hloaded
    exact ⟨_, t₁, .call rfl (hloaded.bind (.done _ t₁)),
      .inl ⟨k', List.mem_of_find?_eq_some hfind, hw', rfl⟩⟩
  · obtain ⟨u, hloaded⟩ := hload (k' :: after)
    rw [← hkeys] at hloaded
    exact ⟨_, u, .call rfl (hloaded.bind (.done _ u)), .inr ⟨rfl, fun h => h.not_jams _ _ hj⟩⟩

/-- Where a record is overlong no opening succeeds, whatever the tree lists before it. -/
theorem run_ne_ok_of_overlong (c : Config) (ht : t.Proper) (hlong : ¬ NoneOverlong t.held) (q : Queue)
    (u : Tree) (ns : List Notice) : (rehydrate c).run Tree.backend t ≠ (.ok q, u, ns) := by
  intro h
  refine hlong fun k x hk hx hover => ?_
  obtain ⟨tr, hfollows⟩ := ht.call_follows (c := .list) _
  change Follows (rehydrate c) _ _ (some ((rehydrate c).run Tree.backend t).1) _ at hfollows
  rw [h] at hfollows
  exact not_jams_of_opened hfollows k x (jams_iff.2 ⟨hk, hx, hover⟩)

end

/-- Another program has written one key. -/
def ofKey (k : String) : Tree := Tree.empty.insertRaw (Bytes.ofText k) []

theorem proper_ofKey (k : String) : (ofKey k).Proper :=
  Tree.Proper.insertRaw (fun _ hs => absurd hs List.not_mem_nil) _ _

theorem held_ofKey (k k' : String) : (ofKey k).held k' = if k' = k then some [] else none := by
  change ((Dict.empty.insert (Tree.slot k) []).get? (Tree.slot k')) = _
  rw [Dict.get?_insert, Dict.get?_empty]
  simp only [Tree.slot_inj]

theorem mem_keys_ofKey {k k' : String} : k' ∈ (ofKey k).keys ↔ k' = k := by
  rw [(proper_ofKey k).mem_keys, held_ofKey]
  split <;> simp [*]

/-- Nothing is announced where nothing is written. -/
theorem noneOverlong_ofKey (k : String) : NoneOverlong (ofKey k).held := by
  intro k' x _ hx
  rw [held_ofKey] at hx
  split at hx
  · cases hx
    rw [← Record.decode_eq_panic_iff (k := k')]
    nofun
  · cases hx

/-- An id in braces. -/
def braced : String := "{00000000-0000-4000-8000-0000000000a1}"

end Queue
end PingDelivery
