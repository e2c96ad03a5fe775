import PingDelivery.Proofs.Time.Rfc3339
import PingDelivery.Proofs.Uuid

/-! # Records are read back

Each reader undoes its writer in front of any bytes, part by part, so a record is read back whole
and what follows it is left alone. No part of a ping is longer than a block of memory can be, which
is what `Ping.Fits` says. Of one thing more the text of a record can tell less than the ping: where a
leap second is not the last of its minute, the time is written as the second that follows. Such a
ping is not `Addressable`; what its record reads as is `settled`. -/

namespace PingDelivery

namespace Record.Scan

/-- A scan that succeeds hands its value and the rest on. -/
theorem bind_of_eq {α β : Type} {x : Scan α} {f : α → Scan β} {b r : Bytes} {a : α}
    (h : x b = .ok (a, r)) : (x >>= f) b = f a r := by
  change (x b).bind (fun p => f p.1 p.2) = f a r
  rw [h]
  rfl

theorem byte_cons (x : UInt8) (s : Bytes) : byte (x :: s) = .ok (x, s) := rfl

theorem take_append (b s : Bytes) : take b.length (b ++ s) = .ok (b, s) := by
  simp [take]

theorem length_littleEndian (width n : Nat) : (littleEndian width n).length = width := by
  induction width generalizing n with
  | zero => rfl
  | succ width ih => rw [littleEndian, List.length_cons, ih]

theorem valueOf_littleEndian (width : Nat) {n : Nat} (h : n < 256 ^ width) :
    valueOf (littleEndian width n) = n := by
  induction width generalizing n with
  | zero =>
    have : n = 0 := by omega
    subst this
    rfl
  | succ width ih =>
    have hn : n / 256 < 256 ^ width := by
      rw [Nat.div_lt_iff_lt_mul (by decide)]
      rwa [Nat.pow_succ] at h
    change (UInt8.ofNat n).toNat + 256 * valueOf (littleEndian width (n / 256)) = n
    rw [ih hn, UInt8.toNat_ofNat']
    omega

theorem wide_littleEndian (width : Nat) {n : Nat} (h : n < 256 ^ width) (s : Bytes) :
    wide width (littleEndian width n ++ s) = .ok (n, s) := by
  have htake : take width (littleEndian width n ++ s) = .ok (littleEndian width n, s) := by
    have := take_append (littleEndian width n) s
    rwa [length_littleEndian] at this
  rw [wide, bind_of_eq htake, valueOf_littleEndian width h]
  rfl

/-- A number is read back by every reader that is wide enough for it. -/
theorem varint_varint {widest n : Nat} (hw : widest = 4 ∨ widest = 8) (h : n < 256 ^ widest)
    (s : Bytes) : varint widest (Record.varint n ++ s) = .ok (n, s) := by
  unfold Record.varint
  split
  · rename_i hn
    have hx : (UInt8.ofNat n) < 251 := by
      rw [UInt8.lt_iff_toNat_lt, UInt8.toNat_ofNat']
      change n % 256 < 251
      omega
    have hb : byte ([UInt8.ofNat n] ++ s) = .ok (UInt8.ofNat n, s) := rfl
    rw [varint, bind_of_eq hb, if_pos hx, UInt8.toNat_ofNat', Nat.mod_eq_of_lt (by omega)]
    rfl
  · rename_i hsmall
    split
    · rename_i hn
      have hb : byte (251 :: littleEndian 2 n ++ s) = .ok (251, littleEndian 2 n ++ s) := rfl
      rw [varint, bind_of_eq hb, if_neg (by decide), if_pos ⟨rfl, by omega⟩]
      exact wide_littleEndian 2 (by omega) s
    · split
      · rename_i hn
        have hb : byte (252 :: littleEndian 4 n ++ s) = .ok (252, littleEndian 4 n ++ s) := rfl
        rw [varint, bind_of_eq hb, if_neg (by decide), if_neg (by simp), if_pos ⟨rfl, by omega⟩]
        exact wide_littleEndian 4 (by omega) s
      · rename_i hn
        have h8 : widest = 8 := by
          rcases hw with rfl | h8
          · exact absurd h (by omega)
          · exact h8
        subst h8
        have hb : byte (253 :: littleEndian 8 n ++ s) = .ok (253, littleEndian 8 n ++ s) := rfl
        rw [varint, bind_of_eq hb, if_neg (by decide), if_neg (by simp), if_neg (by simp),
          if_pos ⟨rfl, by omega⟩]
        exact wide_littleEndian 8 h s

theorem block_block {b : Bytes} (h : b.length ≤ longest) (s : Bytes) :
    block (Record.block b ++ s) = .ok (b, s) := by
  have hlength : b.length < 256 ^ 8 := h.trans_lt (by decide)
  rw [Record.block, List.append_assoc, block, bind_of_eq (varint_varint (.inr rfl) hlength _), if_pos h]
  exact take_append b s

theorem bytes_block {b : Bytes} (h : b.length < 2 ^ 64) (s : Bytes) :
    bytes (Record.block b ++ s) = .ok (b, s) := by
  rw [Record.block, List.append_assoc, bytes, bind_of_eq (varint_varint (.inr rfl) h _)]
  exact take_append b s

theorem lift_some {α : Type} (a : α) (s : Bytes) : lift (some a) s = .ok (a, s) := rfl

theorem text_text {t : String} (h : (Bytes.ofText t).length ≤ longest) (s : Bytes) :
    text (Record.text t ++ s) = .ok (t, s) := by
  rw [Record.text, text, bind_of_eq (block_block h s), Bytes.text?_ofText, lift_some]

theorem option_option {o : Option String} (h : ∀ t ∈ o, (Bytes.ofText t).length ≤ longest)
    (s : Bytes) : option (Record.option o ++ s) = .ok (o, s) := by
  cases o with
  | none => rfl
  | some t =>
    have hb : byte (Record.option (some t) ++ s) = .ok (1, Record.text t ++ s) := rfl
    rw [option, bind_of_eq hb, if_neg (by decide), if_pos rfl, bind_of_eq (text_text (h t rfl) s)]
    rfl

end Record.Scan

/-- Whether every part of the metadata can stand in memory. -/
structure Metadata.Fits (m : Metadata) : Prop where
  serverEndpoint : (Bytes.ofText m.serverEndpoint).length ≤ Record.longest
  path : (Bytes.ofText m.path).length ≤ Record.longest
  userAgent : (Bytes.ofText m.userAgent).length ≤ Record.longest
  channel : ∀ t ∈ m.channel, (Bytes.ofText t).length ≤ Record.longest
  tag : ∀ t ∈ m.tag, (Bytes.ofText t).length ≤ Record.longest

/-- No block of memory is longer than `Record.longest`, so every ping is such. -/
structure Ping.Fits (p : Ping) : Prop where
  documentType : (Bytes.ofText p.documentType).length ≤ Record.longest
  payload : p.payload.length < 2 ^ 64
  metadata : p.metadata.Fits

/-- A ping that its record reads as. It was not made in a leap second within a minute, which no clock
shows. -/
structure Ping.Addressable (p : Ping) : Prop extends p.Fits where
  createdAt : p.createdAt.Civil

namespace Ping.Fits
variable {p : Ping}

/-- Another number or another count of attempts makes no difference. -/
theorem numbered (h : p.Fits) (n : UInt64) : { p with sequence := n }.Fits :=
  ⟨h.documentType, h.payload, h.metadata⟩

theorem attempted (h : p.Fits) : p.attempted.Fits := ⟨h.documentType, h.payload, h.metadata⟩

end Ping.Fits

/-- The ping with the time that its record tells. -/
def Ping.settled (p : Ping) : Ping := { p with createdAt := p.createdAt.settled }

theorem Ping.settled_eq_self_iff {p : Ping} : p.settled = p ↔ p.createdAt.Civil := by
  rw [← Time.Instant.settled_eq_self_iff]
  refine ⟨fun h => congrArg Ping.createdAt h, fun h => ?_⟩
  rw [settled, h]

theorem Ping.Addressable.settled {p : Ping} (h : p.Addressable) : p.settled = p :=
  Ping.settled_eq_self_iff.2 h.createdAt

theorem Ping.Fits.settled {p : Ping} (h : p.Fits) : p.settled.Addressable :=
  ⟨⟨h.documentType, h.payload, h.metadata⟩, Time.Instant.civil_settled p.createdAt⟩

theorem Ping.fits_of_settled {p : Ping} (h : p.settled.Fits) : p.Fits :=
  ⟨h.documentType, h.payload, h.metadata⟩

@[simp] theorem Ping.settled_settled (p : Ping) : p.settled.settled = p.settled :=
  Ping.settled_eq_self_iff.2 (Time.Instant.civil_settled p.createdAt)

namespace Record

/-- A text of few characters can stand in memory. -/
theorem length_ofText_le_longest {t : String} (h : 4 * t.toList.length ≤ longest) :
    (Bytes.ofText t).length ≤ longest := by
  have := Bytes.length_ofText_le t.toList
  rw [String.ofList_toList] at this
  exact this.trans h

theorem Scan.metadata_metadata {m : Metadata} (h : m.Fits) (s : Bytes) :
    Scan.metadata (Record.metadata m ++ s) = .ok (m, s) := by
  rw [Record.metadata]
  simp only [List.append_assoc]
  rw [Scan.metadata, bind_of_eq (text_text h.serverEndpoint _), bind_of_eq (text_text h.path _),
    bind_of_eq (text_text h.userAgent _), bind_of_eq (option_option h.channel _),
    bind_of_eq (option_option h.tag _)]
  rfl

theorem Scan.record_encode {p : Ping} (h : p.Fits) (s : Bytes) :
    Scan.record (encode p ++ s) = .ok ((version, p.settled), s) := by
  simp only [encode, List.cons_append, List.append_assoc]
  rw [Scan.record, bind_of_eq (byte_cons _ _)]
  rw [bind_of_eq (block_block (by rw [p.id.length_octets]; decide) _), Uuid.ofOctets?_octets,
    bind_of_eq (lift_some _ _), bind_of_eq (text_text h.documentType _),
    bind_of_eq (bytes_block h.payload _), bind_of_eq (text_text
      ((Time.Rfc3339.length_ofText_write _).trans (by decide)) _),
    Time.Rfc3339.read?_write, bind_of_eq (lift_some _ _),
    bind_of_eq (varint_varint (.inl rfl) p.attempts.toNat_lt _),
    bind_of_eq (varint_varint (.inr rfl) p.sequence.toNat_lt _),
    bind_of_eq (metadata_metadata h.metadata _)]
  simp only [UInt32.ofNat_toNat, UInt64.ofNat_toNat]
  rfl

/-- **A record is read back under its own key**, whatever follows it. -/
theorem decode_encode_settled {p : Ping} (h : p.Fits) (s : Bytes) :
    decode (key p.id) (encode p ++ s) = .ok p.settled := by
  have hkey : ¬ key p.settled.id ≠ key p.id := not_not.2 rfl
  simp only [decode, Scan.record_encode h, ne_eq, not_true_eq_false, if_false, if_neg hkey]

theorem decode_encode {p : Ping} (h : p.Addressable) (s : Bytes) :
    decode (key p.id) (encode p ++ s) = .ok p := by
  rw [decode_encode_settled h.toFits, Ping.settled_eq_self_iff.2 h.createdAt]

/-! ## What a reader gives -/

namespace Scan

/-- A scan that gives a value went through both of its halves. -/
theorem eq_of_bind {α β : Type} {x : Scan α} {f : α → Scan β} {b r : Bytes} {c : β}
    (h : (x >>= f) b = .ok (c, r)) : ∃ a r', x b = .ok (a, r') ∧ f a r' = .ok (c, r) := by
  obtain ⟨⟨a, r'⟩, hx, hf⟩ := Ended.bind_eq_ok_iff.1 h
  exact ⟨a, r', hx, hf⟩

/-- A scan panics in its first half, or goes through it and panics in the second. -/
theorem bind_eq_panic_iff {α β : Type} {x : Scan α} {f : α → Scan β} {b : Bytes} :
    (x >>= f) b = .panic ↔ x b = .panic ∨ ∃ a r, x b = .ok (a, r) ∧ f a r = .panic := by
  refine Ended.bind_eq_panic_iff.trans (or_congr_right ⟨?_, ?_⟩)
  · rintro ⟨⟨a, r⟩, hx, hf⟩
    exact ⟨a, r, hx, hf⟩
  · rintro ⟨a, r, hx, hf⟩
    exact ⟨(a, r), hx, hf⟩

theorem length_of_take {n : Nat} {b x r : Bytes} (h : take n b = .ok (x, r)) : x.length = n := by
  unfold take at h
  split at h
  · cases h
    rw [List.length_take]
    omega
  · cases h

theorem valueOf_lt (b : Bytes) : valueOf b < 256 ^ b.length := by
  induction b with
  | nil => exact Nat.one_pos
  | cons x b ih =>
    have := x.toNat_lt
    change x.toNat + 256 * valueOf b < 256 ^ (b.length + 1)
    rw [Nat.pow_succ]
    omega

theorem wide_lt {width n : Nat} {b r : Bytes} (h : wide width b = .ok (n, r)) : n < 256 ^ width := by
  obtain ⟨x, r', hx, hn⟩ := eq_of_bind h
  cases hn
  have := valueOf_lt x
  rwa [length_of_take hx] at this

theorem varint_lt {n : Nat} {b r : Bytes} (h : varint 8 b = .ok (n, r)) : n < 2 ^ 64 := by
  obtain ⟨x, r', -, hn⟩ := eq_of_bind h
  have := x.toNat_lt
  split at hn
  · cases hn
    omega
  · split at hn
    · exact (wide_lt hn).trans (by decide)
    · split at hn
      · exact (wide_lt hn).trans (by decide)
      · split at hn
        · exact wide_lt hn
        · cases hn

theorem length_of_block {b x r : Bytes} (h : block b = .ok (x, r)) : x.length ≤ longest := by
  obtain ⟨n, r', hn, hx⟩ := eq_of_bind h
  split at hx
  · rwa [length_of_take hx]
  · cases hx

theorem length_of_bytes {b x r : Bytes} (h : bytes b = .ok (x, r)) : x.length < 2 ^ 64 := by
  obtain ⟨n, r', hn, hx⟩ := eq_of_bind h
  rw [length_of_take hx]
  exact varint_lt hn

theorem eq_of_lift {α : Type} {o : Option α} {a : α} {b r : Bytes} (h : lift o b = .ok (a, r)) :
    o = some a := by
  cases o with
  | none => cases h
  | some a' =>
    cases h
    rfl

theorem length_of_text {t : String} {b r : Bytes} (h : text b = .ok (t, r)) :
    (Bytes.ofText t).length ≤ longest := by
  obtain ⟨x, r', hx, ht⟩ := eq_of_bind h
  rw [Bytes.ofText_of_text? (eq_of_lift ht)]
  exact length_of_block hx

theorem length_of_option {o : Option String} {b r : Bytes} (h : option b = .ok (o, r)) :
    ∀ t ∈ o, (Bytes.ofText t).length ≤ longest := by
  obtain ⟨x, r', -, ho⟩ := eq_of_bind h
  split at ho
  · cases ho
    simp
  · split at ho
    · obtain ⟨t, r'', ht, hp⟩ := eq_of_bind ho
      cases hp
      intro t' ht'
      cases ht'
      exact length_of_text ht
    · cases ho

theorem fits_of_metadata {m : Metadata} {b r : Bytes} (h : metadata b = .ok (m, r)) :
    m.Fits := by
  obtain ⟨e, _, he, h⟩ := eq_of_bind h
  obtain ⟨p, _, hp, h⟩ := eq_of_bind h
  obtain ⟨u, _, hu, h⟩ := eq_of_bind h
  obtain ⟨c, _, hc, h⟩ := eq_of_bind h
  obtain ⟨t, _, ht, h⟩ := eq_of_bind h
  cases h
  exact ⟨length_of_text he, length_of_text hp, length_of_text hu, length_of_option hc,
    length_of_option ht⟩

theorem addressable_of_record {v : UInt8} {p : Ping} {b r : Bytes}
    (h : record b = .ok ((v, p), r)) : p.Addressable := by
  obtain ⟨_, _, -, h⟩ := eq_of_bind h
  obtain ⟨_, _, -, h⟩ := eq_of_bind h
  obtain ⟨id, _, -, h⟩ := eq_of_bind h
  obtain ⟨documentType, _, hd, h⟩ := eq_of_bind h
  obtain ⟨payload, _, hp, h⟩ := eq_of_bind h
  obtain ⟨_, _, -, h⟩ := eq_of_bind h
  obtain ⟨createdAt, _, hc, h⟩ := eq_of_bind h
  obtain ⟨attempts, _, -, h⟩ := eq_of_bind h
  obtain ⟨sequence, _, -, h⟩ := eq_of_bind h
  obtain ⟨metadata, _, hm, h⟩ := eq_of_bind h
  cases h
  exact ⟨⟨length_of_text hd, length_of_bytes hp, fits_of_metadata hm⟩,
    Time.Rfc3339.civil_of_read? (eq_of_lift hc)⟩

end Scan

/-- What is given has been read whole, under the version and the key. -/
theorem record_of_decode {k : String} {b : Bytes} {p : Ping} (h : decode k b = .ok p) :
    (∃ r, Scan.record b = .ok ((version, p), r)) ∧ key p.id = k := by
  unfold decode at h
  split at h
  · cases h
  · cases h
  · rename_i v q r hr
    split at h
    · cases h
    · rename_i hv
      split at h
      · cases h
      · rename_i hk
        cases h
        rw [not_not] at hv hk
        exact ⟨⟨r, hv ▸ hr⟩, hk⟩

/-- What a record gives can be written again. -/
theorem addressable_of_decode {k : String} {b : Bytes} {p : Ping} (h : decode k b = .ok p) :
    p.Addressable := by
  obtain ⟨⟨r, hr⟩, -⟩ := record_of_decode h
  exact Scan.addressable_of_record hr

/-- A record is read only under the key of its ping. -/
theorem key_of_decode {k : String} {b : Bytes} {p : Ping} (h : decode k b = .ok p) :
    key p.id = k := (record_of_decode h).2

end Record
end PingDelivery
