import ZipVersa.Net.Packet

/-! What the reception chain leaves in `p_user` and `p_length`. None of
`rx_ethpkt`, `rx_ippkt` and `rx_udp` looks at `p_rawlen`, so the result stays
inside the raw buffer exactly when the frame holds all three headers. -/

set_option autoImplicit false

namespace ZipVersa.Net

open Lib

/-- `p_length` is non-negative as an `int` and `[p_user, p_user + p_length)`
lies inside `[p_raw, p_raw + p_rawlen)`. -/
def NetPacket.InRaw (pkt : NetPacket) : Prop :=
  0 ≤ pkt.pLength.toInt ∧ 0 ≤ pkt.pUser ∧
    pkt.pUser + pkt.pLength.toInt ≤ pkt.pRawlen.toInt

instance (pkt : NetPacket) : Decidable pkt.InRaw :=
  inferInstanceAs (Decidable (_ ∧ _ ∧ _))

/-- The chain the main loop applies to a datagram for the FFT port. -/
def rxChain (pkt : NetPacket) : NetPacket := rxUdp (rxIppkt (rxEthpkt pkt))

/-- `FFTPORT` of `fftmain.c`. -/
def fftport : BitVec 32 := 6783

/-- The tests on the way from `rx_pkt` to `fftpacket` in the main loop. -/
def reachesFft (pkt : NetPacket) : Prop :=
  ethpktEthtype pkt = ethertypeIp ∧ ippktDst (rxEthpkt pkt) = defaultip ∧
    ippktSubproto (rxEthpkt pkt) = ipprotoUdp ∧
    udpDport (rxIppkt (rxEthpkt pkt)) = fftport

instance (pkt : NetPacket) : Decidable (reachesFft pkt) :=
  inferInstanceAs (Decidable (_ ∧ _ ∧ _ ∧ _))

theorem rxPkt_fields {rxcmd : BitVec 32} {netbrx heap : Int → Byte} {pkt : NetPacket}
    (received : rxPkt rxcmd netbrx heap = some pkt) :
    pkt.pUser = 0 ∧ pkt.pLength = pkt.pRawlen ∧ pkt.pRawlen.toNat ≤ 2047 := by
  unfold rxPkt at received
  split at received
  · cases received
  · split at received
    · cases received
    · next _ short =>
      cases received
      refine ⟨rfl, rfl, ?_⟩
      have bound : ¬ 2047 < enetRxlen rxcmd := fun long => short (.inr long)
      simpa [BitVec.lt_def] using bound

theorem ippktHeaderBytes_toNat (pkt : NetPacket) :
    (ippktHeaderBytes pkt).toNat = 4 * ((pkt.get 0).toNat % 16) := by
  have octetBound := (pkt.get 0).isLt
  have nibble : ((pkt.get 0).setWidth 32 &&& 0x0f#32).toNat = (pkt.get 0).toNat % 16 := by
    rw [BitVec.toNat_and, BitVec.toNat_setWidth, Nat.mod_eq_of_lt (by omega)]
    exact Nat.and_two_pow_sub_one_eq_mod (pkt.get 0).toNat 4
  change (((pkt.get 0).setWidth 32 &&& 0x0f#32) * 4#32).toNat = _
  rw [BitVec.toNat_mul, nibble]
  simp
  omega

/-- The header nibble of a frame as `rx_pkt` delivers it. -/
theorem rxEthpkt_headerBytes {pkt : NetPacket} (user : pkt.pUser = 0) :
    (ippktHeaderBytes (rxEthpkt pkt)).toNat = 4 * ((pkt.pRaw 8).toNat % 16) := by
  simpa [rxEthpkt, NetPacket.strip, NetPacket.get, user] using
    ippktHeaderBytes_toNat (rxEthpkt pkt)

/-- The length the chain computes, as an unsigned number. A header that does
not fit wraps the remaining length to a huge value. -/
theorem rxChain_pLength {pkt : NetPacket} (user : pkt.pUser = 0)
    (length : pkt.pLength = pkt.pRawlen) (bound : pkt.pRawlen.toNat ≤ 2047) :
    (rxChain pkt).pLength.toNat =
      if (udpLength (rxIppkt (rxEthpkt pkt))).toNat ≤ 8 then 0
      else if (udpLength (rxIppkt (rxEthpkt pkt))).toNat <
          (pkt.pRawlen.toNat + 2 ^ 32 - 8 - 4 * ((pkt.pRaw 8).toNat % 16)) % 2 ^ 32 then
        (udpLength (rxIppkt (rxEthpkt pkt))).toNat - 8
      else
        (pkt.pRawlen.toNat + 2 ^ 32 - 16 - 4 * ((pkt.pRaw 8).toNat % 16)) % 2 ^ 32 := by
  have header := rxEthpkt_headerBytes user
  have fieldBound : (udpLength (rxIppkt (rxEthpkt pkt))).toNat < 65536 := be16_lt _ _
  have remaining : (rxIppkt (rxEthpkt pkt)).pLength.toNat =
      (pkt.pRawlen.toNat + 2 ^ 32 - 8 - 4 * ((pkt.pRaw 8).toNat % 16)) % 2 ^ 32 := by
    simp only [rxIppkt, rxEthpkt, NetPacket.strip, length, BitVec.toNat_sub] at header ⊢
    rw [header]
    simp
    omega
  change (if udpLength (rxIppkt (rxEthpkt pkt)) ≤ 8 then 0#32
    else if udpLength (rxIppkt (rxEthpkt pkt)) < (rxIppkt (rxEthpkt pkt)).pLength then
      udpLength (rxIppkt (rxEthpkt pkt)) - 8
    else (rxIppkt (rxEthpkt pkt)).pLength - 8).toNat = _
  generalize udpLength (rxIppkt (rxEthpkt pkt)) = field at fieldBound ⊢
  rw [← remaining]
  by_cases empty : field.toNat ≤ 8
  · rw [if_pos (show field ≤ 8 from empty), if_pos empty]
    rfl
  · rw [if_neg (show ¬ field ≤ 8 from empty), if_neg empty]
    by_cases longer : field.toNat < (rxIppkt (rxEthpkt pkt)).pLength.toNat
    · rw [if_pos (show field < (rxIppkt (rxEthpkt pkt)).pLength from longer), if_pos longer,
        BitVec.toNat_sub]
      simp
      omega
    · rw [if_neg (show ¬ field < (rxIppkt (rxEthpkt pkt)).pLength from longer), if_neg longer,
        BitVec.toNat_sub, remaining]
      simp
      omega

/-- A frame of `n` bytes comes out of the chain with its payload inside the
raw buffer if and only if the Ethernet, IP and UDP headers fit into `n`. -/
theorem rxChain_inRaw_iff (rxcmd : BitVec 32) (netbrx heap : Int → Byte) (pkt : NetPacket)
    (received : rxPkt rxcmd netbrx heap = some pkt) :
    (rxChain pkt).InRaw ↔ 8 + 4 * ((pkt.pRaw 8).toNat % 16) + 8 ≤ pkt.pRawlen.toNat := by
  obtain ⟨user, length, bound⟩ := rxPkt_fields received
  have fieldBound : (udpLength (rxIppkt (rxEthpkt pkt))).toNat < 65536 := be16_lt _ _
  have userAfter : (rxChain pkt).pUser = 8 + 4 * ((pkt.pRaw 8).toNat % 16) + 8 := by
    change pkt.pUser + 8 + (ippktHeaderBytes (rxEthpkt pkt)).toNat + 8 = _
    rw [user, rxEthpkt_headerBytes user]
    push_cast
    omega
  have rawlenAfter : (rxChain pkt).pRawlen.toInt = pkt.pRawlen.toNat := by
    change pkt.pRawlen.toInt = _
    rw [BitVec.toInt_eq_toNat_cond, if_pos (by omega)]
  have lengthAfter := rxChain_pLength user length bound
  rw [NetPacket.InRaw, userAfter, rawlenAfter, BitVec.toInt_eq_toNat_cond]
  split at lengthAfter
  · rw [if_pos (by omega)]
    omega
  · split at lengthAfter
    · rw [if_pos (by omega)]
      omega
    · split <;> omega

/-- The frame of `rxChain_inRaw_iff` in bytes: IHL 10, destination port 6783,
and the frame ends two bytes before the UDP header does. -/
def shortUdpFrame : Int → Byte := fun index =>
  if index = 6 then 0x08 else if index = 8 then 0x4a
  else if index = 17 then 17
  else if index = 24 then 192 else if index = 25 then 168
  else if index = 26 then 15 else if index = 27 then 22
  else if index = 50 then 0x1a else if index = 51 then 0x7f
  else if index = 52 then 0x01 else 0

/-- The smallest Ethernet frame (54 bytes once the MAC is stripped) with an IP
header of ten words reaches `fftpacket` with `p_length = -2`. -/
theorem shortUdpFrame_outside_raw :
    ∃ pkt, rxPkt 0x4036 shortUdpFrame (fun _ => 0) = some pkt ∧ reachesFft pkt ∧
      (rxChain pkt).pLength.toInt = -2 ∧ ¬ (rxChain pkt).InRaw := by
  refine ⟨_, rfl, ?_, ?_, ?_⟩ <;> decide

/-- The same bytes in a frame two bytes longer stay inside the buffer. -/
theorem longer_udp_frame_inside_raw :
    ∃ pkt, rxPkt 0x4038 shortUdpFrame (fun _ => 0) = some pkt ∧ (rxChain pkt).InRaw := by
  refine ⟨_, rfl, ?_⟩
  exact (rxChain_inRaw_iff 0x4038 shortUdpFrame (fun _ => 0) _ rfl).mpr (by decide)

end ZipVersa.Net
