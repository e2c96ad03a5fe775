import PingDelivery.Proofs.Record.RoundTrip

/-! # Records say where they end

A reader is `Delimited` if what it gives rests on the bytes it takes off the front and on nothing
behind them. All readers of a record's parts are, because a reader that goes on from another one is.
So a record that is cut short is no record: what reads in the shorter bytes would leave the missing
ones over in the whole. -/

namespace PingDelivery.Record

namespace Scan
variable {α β : Type}

/-- The reader takes a part off the front, and gives the same for that part in front of any bytes; where
it panics, it does so whatever follows. -/
structure Delimited (x : Scan α) : Prop where
  reads : ∀ ⦃b r : Bytes⦄ ⦃a : α⦄, x b = .ok (a, r) → ∃ c, b = c ++ r ∧ ∀ s, x (c ++ s) = .ok (a, s)
  panics : ∀ ⦃b : Bytes⦄, x b = .panic → ∀ s, x (b ++ s) = .panic

namespace Delimited

theorem pure (a : α) : Delimited (Pure.pure a : Scan α) where
  reads b r a' h := by
    cases h
    exact ⟨[], rfl, fun s => rfl⟩
  panics _ h := by cases h

theorem refuse : Delimited (Scan.refuse : Scan α) where
  reads _ _ _ h := by cases h
  panics _ h := by cases h

theorem panic : Delimited (Scan.panic : Scan α) where
  reads _ _ _ h := by cases h
  panics _ _ _ := rfl

theorem lift (o : Option α) : Delimited (Scan.lift o) := by
  cases o with
  | none => exact refuse
  | some a => exact pure a

/-- What goes on from a delimited reader ends where its second part does. -/
theorem bind {x : Scan α} {f : α → Scan β} (hx : Delimited x) (hf : ∀ a, Delimited (f a)) :
    Delimited (x >>= f) where
  reads b r y h := by
    obtain ⟨a, r₁, hxa, hfa⟩ := eq_of_bind h
    obtain ⟨c₁, rfl, hc₁⟩ := hx.reads hxa
    obtain ⟨c₂, rfl, hc₂⟩ := (hf a).reads hfa
    refine ⟨c₁ ++ c₂, (List.append_assoc _ _ _).symm, ?_⟩
    intro s
    rw [List.append_assoc, bind_of_eq (hc₁ (c₂ ++ s))]
    exact hc₂ s
  panics b h s := by
    rcases bind_eq_panic_iff.1 h with hpanic | ⟨a, r, hxa, hfa⟩
    · exact bind_eq_panic_iff.2 (.inl (hx.panics hpanic s))
    · obtain ⟨c, rfl, hc⟩ := hx.reads hxa
      rw [List.append_assoc, bind_of_eq (hc (r ++ s))]
      exact (hf a).panics hfa s

theorem ite {p : Prop} [Decidable p] {x y : Scan α} (hx : Delimited x) (hy : Delimited y) :
    Delimited (if p then x else y) := by
  split
  · exact hx
  · exact hy

theorem byte : Delimited Scan.byte where
  reads b r x h := by
    cases b with
    | nil => cases h
    | cons y b =>
      cases h
      exact ⟨[x], rfl, fun s => rfl⟩
  panics b h := by
    cases b with
    | nil => cases h
    | cons y b => cases h

theorem take (n : Nat) : Delimited (Scan.take n) where
  reads b r x h := by
    have hlength := length_of_take h
    unfold Scan.take at h
    split at h
    · cases h
      refine ⟨b.take n, (List.take_append_drop n b).symm, ?_⟩
      intro s
      have := take_append (b.take n) s
      rwa [hlength] at this
    · cases h
  panics b h := by
    unfold Scan.take at h
    split at h <;> cases h

theorem wide (width : Nat) : Delimited (Scan.wide width) := (take width).bind fun _ => pure _

theorem varint (widest : Nat) : Delimited (Scan.varint widest) :=
  byte.bind fun _ => ite (pure _) (ite (wide 2) (ite (wide 4) (ite (wide 8) refuse)))

theorem block : Delimited Scan.block := (varint 8).bind fun _ => ite (take _) panic

theorem bytes : Delimited Scan.bytes := (varint 8).bind take

theorem text : Delimited Scan.text := block.bind fun _ => lift _

theorem option : Delimited Scan.option :=
  byte.bind fun _ => ite (pure _) (ite (text.bind fun _ => pure _) refuse)

theorem metadata : Delimited Scan.metadata :=
  text.bind fun _ => text.bind fun _ => text.bind fun _ => option.bind fun _ =>
    option.bind fun _ => pure _

theorem record : Delimited Scan.record :=
  byte.bind fun _ => block.bind fun _ => (lift _).bind fun _ => text.bind fun _ =>
    bytes.bind fun _ => text.bind fun _ => (lift _).bind fun _ => (varint 4).bind fun _ =>
      (varint 8).bind fun _ => metadata.bind fun _ => pure _

/-- Where the whole is taken, a part of it is refused. -/
theorem error_of_prefix {x : Scan α} (hx : Delimited x) {b t : Bytes} {a : α}
    (hb : x b = .ok (a, [])) (ht : t <+: b) (hne : t ≠ b) : x t = .error () := by
  obtain ⟨u, rfl⟩ := ht
  cases hxt : x t with
  | error e => rfl
  | panic =>
    rw [hx.panics hxt u] at hb
    cases hb
  | ok y =>
    obtain ⟨c, rfl, hc⟩ := hx.reads hxt
    rw [List.append_assoc, hc (y.2 ++ u)] at hb
    have hu : u = [] := (List.append_eq_nil_iff.1 (Prod.mk.inj (Ended.ok.inj hb)).2).2
    simp [hu] at hne

end Delimited
end Scan

/-- **Records are read back exactly.** Writing gives every ping a record, and whatever bytes follow
it, under the ping's own key it reads as that ping, but for a leap second within a minute, which reads as
the second that follows. Under any other key it is refused for the key. Cut short anywhere it is no
record under any key. -/
theorem decode_encode_exactly {p : Ping} (h : p.Fits) :
    (∀ s, decode (key p.id) (encode p ++ s) = .ok p.settled) ∧ (p.settled = p ↔ p.createdAt.Civil) ∧
    (∀ t, t <+: encode p → t ≠ encode p → ∀ k, decode k t = .error .malformed) ∧
    ∀ k, k ≠ key p.id → ∀ s, decode k (encode p ++ s) = .error (.keyMismatch k p.id) := by
  refine ⟨decode_encode_settled h, Ping.settled_eq_self_iff, ?_, ?_⟩
  · intro t ht hne k
    have hwhole := Scan.record_encode h []
    rw [List.append_nil] at hwhole
    rw [decode, Scan.Delimited.record.error_of_prefix hwhole ht hne]
  · intro k hk s
    have hkey : key p.settled.id ≠ k := hk.symm
    simp only [decode, Scan.record_encode h, ne_eq, not_true_eq_false, if_false, if_pos hkey]
    rfl

/-- A ping that was made in a leap second of its own, in the midst of a minute. -/
def hasty : Ping where
  id := .drawn 161
  documentType := "metrics"
  payload := [123, 125]
  createdAt := ⟨1700006164, 1333333333, by decide⟩
  attempts := 0
  sequence := 0
  metadata := ⟨"", "/submit", "agent", none, none⟩

theorem fits_hasty : hasty.Fits where
  documentType := length_ofText_le_longest (by decide)
  payload := by decide
  metadata := ⟨length_ofText_le_longest (by decide), length_ofText_le_longest (by decide),
    length_ofText_le_longest (by decide), nofun, nofun⟩

theorem settled_hasty : hasty.settled =
    { hasty with createdAt := ⟨1700006165, 333333333, by decide⟩ } := rfl

theorem settled_hasty_ne : hasty.settled ≠ hasty := by
  rw [ne_eq, Ping.settled_eq_self_iff]
  decide

/-- It comes back as made in the second that follows. -/
theorem hasty_read_back : decode (key hasty.id) (encode hasty) ≠ .ok hasty ∧
    decode (key hasty.id) (encode hasty) =
      .ok { hasty with createdAt := ⟨1700006165, 333333333, by decide⟩ } := by
  have hread := decode_encode_settled fits_hasty []
  rw [List.append_nil] at hread
  refine ⟨fun h => ?_, hread.trans (congrArg Ended.ok settled_hasty)⟩
  rw [hread] at h
  exact settled_hasty_ne (Ended.ok.inj h)

/-- A ping at the limits: a leap second in a year of five digits, counts that fill their words, and
text beyond ASCII. -/
def extreme : Ping where
  id := .drawn (2 ^ 128 - 1)
  documentType := "métrique"
  payload := List.replicate 251 255
  createdAt := ⟨253402300859, 1999999999, by decide⟩
  attempts := 0xFFFFFFFF
  sequence := 0xFFFFFFFFFFFFFFFF
  metadata := ⟨"", "/submit", "agent", none, some "標"⟩

theorem fits_extreme : extreme.Fits := by
  have hpayload : extreme.payload.length < 2 ^ 64 :=
    List.length_replicate.trans_lt (by decide)
  refine ⟨length_ofText_le_longest (by decide), hpayload, length_ofText_le_longest (by decide),
    length_ofText_le_longest (by decide), length_ofText_le_longest (by decide), nofun, ?_⟩
  rintro t ⟨⟩
  exact length_ofText_le_longest (by decide)

theorem extreme_read_back : decode (key extreme.id) (encode extreme ++ [0]) = .ok extreme ∧
    decode (key extreme.id) (encode extreme).dropLast = .error .malformed ∧
    decode "client_id" (encode extreme) = .error (.keyMismatch "client_id" extreme.id) := by
  obtain ⟨hread, hcivil, hcut, hforeign⟩ := decode_encode_exactly fits_extreme
  rw [hcivil.2 (by decide)] at hread
  refine ⟨hread [0], hcut _ (List.dropLast_prefix _) ?_ _, ?_⟩
  · intro h
    have hlength := congrArg List.length h
    rw [List.length_dropLast] at hlength
    have hpos : 0 < (encode extreme).length := Nat.succ_pos _
    omega
  · have hkey : "client_id" ≠ key extreme.id := by
      intro h
      have hlength : (key extreme.id).toList.length = 36 := by
        rw [key, Uuid.text, String.toList_ofList, Uuid.length_chars]
      rw [← h] at hlength
      exact absurd hlength (by decide)
    have := hforeign _ hkey []
    rwa [List.append_nil] at this

end PingDelivery.Record
