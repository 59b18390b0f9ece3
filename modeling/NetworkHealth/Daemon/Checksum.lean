import Mathlib.Algebra.Order.BigOperators.Group.List
import NetworkHealth.Daemon.Packet
import NetworkHealth.Library.OnesComplement

/-! The checksum of an echo request. A 32-bit accumulator holds the sum of as many words as a
packet can have; what its carries are folded into is the word of that sum. -/
namespace NetworkHealth.Daemon
open OnesComplement (Represents carryRound carryRound_carryRound_lt carryRound_le carryRound_of_lt)

/-- Data with a checksum field that is still zero. -/
structure Checksummable (data : Bytes) : Prop where
  even : 2 ∣ data.length
  short : data.length < 2 ^ 17
  blank : (data.drop 2).take 2 = [0, 0]

section Words
variable (order : ByteOrder)

/-- The checksum is stored in its field. -/
def withChecksum (data : Bytes) : Bytes :=
  data.take 2 ++ order.store 2 (internetChecksum order data).toNat ++ data.drop 4

variable {order} {data : Bytes} {n : ℕ}

theorem load_lt_word (order : ByteOrder) (a b : UInt8) : order.load [a, b] < 2 ^ 16 := by
  have hlt := order.load_lt [a, b]
  have hlength : [a, b].length = 2 := rfl
  rw [hlength] at hlt
  omega

theorem lt_of_mem_checksumWords {word : ℕ} (h : word ∈ checksumWords order data) : word < 2 ^ 16 := by
  induction data using checksumWords.induct with
  | case1 => simp [checksumWords] at h
  | case2 last =>
    obtain rfl : word = order.load [last, 0] := by simpa [checksumWords] using h
    exact load_lt_word order last 0
  | case3 a b rest ih =>
    obtain rfl | hrest : word = order.load [a, b] ∨ word ∈ checksumWords order rest := by
      simpa [checksumWords] using h
    · exact load_lt_word order a b
    · exact ih hrest

theorem length_checksumWords (order : ByteOrder) (data : Bytes) :
    2 * (checksumWords order data).length ≤ data.length + 1 := by
  induction data using checksumWords.induct with
  | case1 => simp [checksumWords]
  | case2 last => simp [checksumWords]
  | case3 a b rest ih =>
    simp only [checksumWords, List.length_cons]
    omega

/-- So many words do not overflow the accumulator. -/
theorem sum_prefix_lt (h : Checksummable data) {words : List ℕ} (hwords : words <+: checksumWords order data) :
    words.sum < 2 ^ 32 := by
  have hlength := hwords.length_le
  have hcount := length_checksumWords order data
  have hshort := h.short
  have hbound : words.sum ≤ words.length * (2 ^ 16 - 1) := by
    refine List.sum_le_card_nsmul words _ fun word hword => ?_
    exact Nat.le_sub_one_of_lt (lt_of_mem_checksumWords (hwords.subset hword))
  omega

theorem accumulate_eq_sum {words : List ℕ} (h : words.sum < 2 ^ 32) :
    words.foldl (fun sum word => (sum + word) % 2 ^ 32) 0 = words.sum := by
  induction words using List.reverseRecOn with
  | nil => rfl
  | append_singleton words word ih =>
    rw [List.sum_append, List.sum_singleton] at h ⊢
    rw [List.foldl_append, ih (by omega)]
    exact Nat.mod_eq_of_lt h

theorem represents_foldCarries (n : ℕ) : Represents (2 ^ 16) n (foldCarries n) := by
  induction n using foldCarries.induct with
  | case1 sum hnone =>
    rw [foldCarries, if_pos hnone]
    exact OnesComplement.represents_self (by omega)
  | case2 sum hcarries ih =>
    rw [foldCarries, if_neg hcarries]
    exact Represents.of_carryRound (by decide) ih

theorem foldCarries_of_done (h : n / 2 ^ 16 = 0) : foldCarries n = n := by
  rw [foldCarries, if_pos h]

theorem foldCarries_carryRound (n : ℕ) : foldCarries (carryRound (2 ^ 16) n) = foldCarries n := by
  by_cases hdone : n / 2 ^ 16 = 0
  · rw [carryRound_of_lt (by omega)]
  · conv_rhs => rw [foldCarries, if_neg hdone]
    rfl

theorem foldCarries_iterate (n rounds : ℕ) : foldCarries ((carryRound (2 ^ 16))^[rounds] n) = foldCarries n := by
  induction rounds with
  | zero => rfl
  | succ rounds ih => rw [Function.iterate_succ_apply', foldCarries_carryRound, ih]

/-- The loop over the carries of a 32-bit number ends after two rounds at most. -/
theorem exists_rounds (h : n < 2 ^ 32) : ∃ rounds ≤ 2,
    (∀ before < rounds, (carryRound (2 ^ 16))^[before] n / 2 ^ 16 ≠ 0) ∧
      (carryRound (2 ^ 16))^[rounds] n / 2 ^ 16 = 0 ∧ foldCarries n = (carryRound (2 ^ 16))^[rounds] n := by
  have htwo : (carryRound (2 ^ 16))^[2] n / 2 ^ 16 = 0 :=
    Nat.div_eq_of_lt (carryRound_carryRound_lt (by decide) (by omega))
  have hends : ∃ rounds, (carryRound (2 ^ 16))^[rounds] n / 2 ^ 16 = 0 := ⟨2, htwo⟩
  have hdone := Nat.find_spec hends
  refine ⟨Nat.find hends, Nat.find_min' hends htwo, fun before hbefore => Nat.find_min hends hbefore, hdone, ?_⟩
  rw [← foldCarries_iterate n (Nat.find hends), foldCarries_of_done hdone]

theorem iterate_carryRound_le (n rounds : ℕ) : (carryRound (2 ^ 16))^[rounds] n ≤ n := by
  induction rounds with
  | zero => exact Nat.le_refl n
  | succ rounds ih =>
    rw [Function.iterate_succ_apply']
    exact (carryRound_le (by decide) _).trans ih

theorem toNat_internetChecksum (h : Checksummable data) :
    (internetChecksum order data).toNat = 2 ^ 16 - 1 - foldCarries (checksumWords order data).sum := by
  have hfolded := (represents_foldCarries (checksumWords order data).sum).lt
  rw [internetChecksum, accumulate_eq_sum (sum_prefix_lt h (List.prefix_refl _)), UInt16.toNat_not,
    UInt16.toNat_ofNat', Nat.mod_eq_of_lt hfolded]
  rfl

theorem exists_split (h : Checksummable data) : ∃ a b rest, data = a :: b :: 0 :: 0 :: rest := by
  have hblank := h.blank
  match data, hblank with
  | a :: b :: c :: d :: rest, hblank =>
    obtain ⟨rfl, rfl⟩ : c = 0 ∧ d = 0 := by simpa using hblank
    exact ⟨a, b, rest, rfl⟩

/-- Storing the checksum adds it to the sum. -/
theorem sum_withChecksum (h : Checksummable data) : (checksumWords order (withChecksum order data)).sum =
    (checksumWords order data).sum + (internetChecksum order data).toNat := by
  obtain ⟨a, b, rest, rfl⟩ := exists_split h
  generalize hchecksum : internetChecksum order (a :: b :: 0 :: 0 :: rest) = checksum
  obtain ⟨x, y, hstored⟩ : ∃ x y, order.store 2 checksum.toNat = [x, y] :=
    List.length_eq_two.mp (order.length_store 2 checksum.toNat)
  have hload : order.load [x, y] = checksum.toNat := by
    rw [← hstored]
    exact order.load_store checksum.toNat_lt
  have hblank : order.load [0, 0] = 0 := by cases order <;> rfl
  have hwords : withChecksum order (a :: b :: 0 :: 0 :: rest) = a :: b :: x :: y :: rest := by
    rw [withChecksum, hchecksum, hstored]
    rfl
  rw [hwords]
  simp only [checksumWords, List.sum_cons, hload, hblank]
  omega

end Words

theorem IcmpSocket.exists_packet (order : ByteOrder) (socket : IcmpSocket) (family : Family) (uid seq : UInt32)
    (sentUs : UInt64) (cookie : UInt32) :
    ∃ data, Checksummable data ∧ data.length = kPacketSize ∧ socket.packet order family uid seq sentUs cookie =
      if socket.handsIpHeader family then withChecksum order data else data := by
  have hblank : order.store 2 (0 : UInt16).toNat = [0, 0] := by cases order <;> rfl
  let header : IcmpHeader := ⟨requestType family, 0, 0, htons order uid.toUInt16, htons order seq.toUInt16⟩
  let payload : Payload := ⟨kMagic, cookie, uid, seq, sentUs⟩
  have hheader : header.bytes order = requestType family :: 0 :: 0 :: 0 ::
      (order.store 2 header.id.toNat ++ order.store 2 header.sequence.toNat) := by
    simp only [IcmpHeader.bytes, header, hblank]
    simp
  have hlength : (header.bytes order ++ payload.bytes order).length = kPacketSize := by
    rw [List.length_append, Payload.length_bytes, hheader]
    simp [kPacketSize, headerSize]
  refine ⟨header.bytes order ++ payload.bytes order, ⟨?_, ?_, ?_⟩, hlength, rfl⟩
  · rw [hlength]
    decide
  · rw [hlength]
    decide
  · rw [hheader]
    rfl

/-- Once the checksum is stored, the words of the data sum up to the greatest word. The accumulator
holds the sum all along, and folding it ends. -/
theorem checksum_verifies (order : ByteOrder) :
    (∀ data, Checksummable data →
      (∀ words, words <+: checksumWords order data →
        words.sum < 2 ^ 32 ∧ words.foldl (fun sum word => (sum + word) % 2 ^ 32) 0 = words.sum) ∧
      (∃ rounds ≤ 2,
        (∀ before < rounds, (carryRound (2 ^ 16))^[before] (checksumWords order data).sum / 2 ^ 16 ≠ 0) ∧
        (carryRound (2 ^ 16))^[rounds] (checksumWords order data).sum / 2 ^ 16 = 0 ∧
        foldCarries (checksumWords order data).sum = (carryRound (2 ^ 16))^[rounds] (checksumWords order data).sum) ∧
      (∀ rounds, (carryRound (2 ^ 16))^[rounds] (checksumWords order data).sum < 2 ^ 32) ∧
      OnesComplement.sum (2 ^ 16) (checksumWords order (withChecksum order data)) = 0xFFFF ∧
      foldCarries (checksumWords order (withChecksum order data)).sum = 0xFFFF) ∧
    ∀ (socket : IcmpSocket) (family : Family) (uid seq : UInt32) (sentUs : UInt64) (cookie : UInt32),
      ∃ data, Checksummable data ∧ data.length = kPacketSize ∧ socket.packet order family uid seq sentUs cookie =
        if socket.handsIpHeader family then withChecksum order data else data := by
  refine ⟨fun data h => ?_, IcmpSocket.exists_packet order⟩
  have htotal : (checksumWords order data).sum < 2 ^ 32 := sum_prefix_lt h (List.prefix_refl _)
  have hgreatest : Represents (2 ^ 16) (checksumWords order (withChecksum order data)).sum 0xFFFF := by
    rw [sum_withChecksum h, toNat_internetChecksum h]
    exact Represents.complement (by decide) (represents_foldCarries _)
  refine ⟨fun words hwords => ?_, exists_rounds htotal, fun rounds => ?_, ?_, ?_⟩
  · have hsum := sum_prefix_lt h hwords
    exact ⟨hsum, accumulate_eq_sum hsum⟩
  · exact (iterate_carryRound_le _ rounds).trans_lt htotal
  · exact (OnesComplement.represents_sum (by decide) fun _ hword => lt_of_mem_checksumWords hword).unique (by decide)
      hgreatest
  · exact (represents_foldCarries _).unique (by decide) hgreatest

/-- An echo request whose sum carries. -/
theorem checksum_verifies_carry :
    let data : Bytes := [8, 0, 0, 0, 0xFF, 0xFF, 0xFF, 0xF7]
    2 ^ 16 ≤ (checksumWords .little data).sum ∧
      foldCarries (checksumWords .little (withChecksum .little data)).sum = 0xFFFF := by
  intro data
  have hdata : Checksummable data := ⟨by decide, by decide, by decide⟩
  exact ⟨by decide, ((checksum_verifies .little).1 data hdata).2.2.2.2⟩

end NetworkHealth.Daemon
