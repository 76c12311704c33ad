import RadioStack.Rlc.UmPdu

/-!
# Headers of data PDUs

Reader, writer and length of the headers of both acknowledged and unacknowledged mode, side by side.

**Theorem (`headerCodecs`).** An AM header whose segment offset is non-zero exactly for middle and
last segments is read back, and what the receiver strips is what the reader consumed. For UM, a
header is read back unless it gives a full SDU an SN, which such a PDU does not carry; and the
receiver strips what was read unless a middle or last segment has offset 0: then the offset is left
in front of the payload (`stripped_without_offset`).
-/

namespace RadioStack.Rlc

theorem length_of_scanSo {h h' : AmPduHeader} {rest rest' : List UInt8}
    (hr : scanSo h rest = some (h', rest')) :
    h'.si = h.si ∧ h'.snSize = h.snSize ∧
      rest.length = (if h.si = .lastSegment ∨ h.si = .middleSegment then 2 else 0) +
        rest'.length := by
  unfold scanSo at hr
  by_cases hsi : h.si = .lastSegment ∨ h.si = .middleSegment
  · rw [if_pos hsi] at hr
    match rest, hr with
    | _ :: _ :: rest, hr =>
      cases hr
      refine ⟨rfl, rfl, ?_⟩
      rw [if_pos hsi, List.length_cons, List.length_cons]
      omega
  · rw [if_neg hsi] at hr
    cases hr
    exact ⟨rfl, rfl, by rw [if_neg hsi, Nat.zero_add]⟩

theorem length_of_scanDataPduHeader {n : AmSnSize} {pdu rest : List UInt8} {h : AmPduHeader}
    (hr : scanDataPduHeader n pdu = some (h, rest)) : pdu.length = h.packedSize + rest.length := by
  have hfixed : ∀ {h₀ : AmPduHeader} {rest₀ : List UInt8}, scanSo h₀ rest₀ = some (h, rest) →
      pdu.length = amPduHeaderMinSize h₀.snSize + rest₀.length →
      pdu.length = h.packedSize + rest.length := by
    intro h₀ rest₀ hso hlen
    obtain ⟨hsi, hsize, hrest⟩ := length_of_scanSo hso
    rw [hlen, hrest, AmPduHeader.packedSize, hsi, hsize, amPduHeaderMaxSize]
    split <;> omega
  unfold scanDataPduHeader at hr
  split_ifs at hr
  cases n with
  | size12bits =>
    rcases pdu with _ | ⟨b₀, _ | ⟨b₁, rest₀⟩⟩
    iterate 2 cases hr
    · refine hfixed hr ?_
      rw [List.length_cons, List.length_cons, amPduHeaderMinSize]
      omega
  | size18bits =>
    rcases pdu with _ | ⟨b₀, _ | ⟨b₁, _ | ⟨b₂, rest₀⟩⟩⟩
    iterate 3 cases hr
    · simp only at hr
      split_ifs at hr
      refine hfixed hr ?_
      rw [List.length_cons, List.length_cons, List.length_cons, amPduHeaderMinSize]
      omega

/-- Both directions of the header codecs, for AM and UM: a header is written in front of a payload,
and read from a PDU. -/
theorem headerCodecs (payload pdu : List UInt8) (hpayload : payload ≠ []) :
    (∀ h : AmPduHeader, h.Coherent →
      readDataPduHeader h.snSize (writeDataPduHeader h ++ payload) = some h) ∧
    (∀ h : UmPduHeader, Um.Coherent h →
      ((Um.readDataPduHeader h.snSize (Um.writeDataPduHeader h ++ payload)).map Prod.fst = some h ↔
        ¬ (h.si = .fullSdu ∧ h.sn ≠ 0))) ∧
    (∀ n h, readDataPduHeader n pdu = some h → ∃ rest,
      scanDataPduHeader n pdu = some (h, rest) ∧ pdu.length - rest.length = h.packedSize) ∧
    ∀ n h rest, Um.readDataPduHeader n pdu = some (h, rest) →
      (pdu.length - rest.length = Um.packedLength h ↔
        ¬ ((h.si = .lastSegment ∨ h.si = .middleSegment) ∧ h.so = 0)) := by
  refine ⟨fun h hc => readDataPduHeader_write hc hpayload,
    fun h hc => Um.readDataPduHeader_write_iff hc payload, fun n h hr => ?_, fun n h rest hr => ?_⟩
  · obtain ⟨⟨_, rest⟩, hscan, rfl⟩ := Option.map_eq_some_iff.1 hr
    exact ⟨rest, hscan, by rw [length_of_scanDataPduHeader hscan, Nat.add_sub_cancel]⟩
  · have hread := Um.read_of_readDataPduHeader hr
    rw [hread.length, Nat.add_sub_cancel]
    exact Um.readLength_eq_packedLength_iff hread

/-- A last segment with a 6-bit SN, and with an 18-bit one. -/
theorem headerCodecs_lastSegment :
    readDataPduHeader .size18bits
        (writeDataPduHeader ⟨.data, true, .lastSegment, .size18bits, 70000, 9⟩ ++ [1]) =
      some ⟨.data, true, .lastSegment, .size18bits, 70000, 9⟩ ∧
      (Um.readDataPduHeader .size6bits (Um.writeDataPduHeader ⟨.lastSegment, .size6bits, 63, 300⟩
        ++ [1])).map Prod.fst = some ⟨.lastSegment, .size6bits, 63, 300⟩ ∧
      Um.packedLength ⟨.lastSegment, .size6bits, 63, 300⟩ = 3 :=
  have hcodecs := headerCodecs [1] [0xbf, 1, 44, 1] nofun
  ⟨hcodecs.1 ⟨.data, true, .lastSegment, .size18bits, 70000, 9⟩ ⟨by decide, by decide, by decide⟩,
    (hcodecs.2.1 ⟨.lastSegment, .size6bits, 63, 300⟩ ⟨by decide, by decide, by decide⟩).2
      (by decide),
    ((hcodecs.2.2.2 .size6bits ⟨.lastSegment, .size6bits, 63, 300⟩ [1] (by decide)).2
      (by decide)).symm⟩

/-- A last segment with offset 0: three bytes are read and one is stripped. And the SN of a full SDU
is not transmitted. -/
theorem stripped_without_offset :
    Um.readDataPduHeader .size6bits [0x81, 0, 0, 7] = some (⟨.lastSegment, .size6bits, 1, 0⟩, [7]) ∧
      Um.packedLength ⟨.lastSegment, .size6bits, 1, 0⟩ = 1 ∧
      Um.Coherent ⟨.fullSdu, .size12bits, 5, 0⟩ ∧
      Um.readDataPduHeader .size12bits
          (Um.writeDataPduHeader ⟨.fullSdu, .size12bits, 5, 0⟩ ++ [7]) =
        some (⟨.fullSdu, .size12bits, 0, 0⟩, [7]) :=
  ⟨by decide, by decide, ⟨by decide, by decide, by decide⟩, by decide⟩

end RadioStack.Rlc
