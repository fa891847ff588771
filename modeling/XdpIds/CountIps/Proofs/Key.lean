/-
The keys of count_IPs_xdp, from the kernel program that makes them to the
dump that takes them apart.

`ipKey` is the key of a frame: its addresses, or the pair that stands for
the exit its headers took. `parseUpdate_eq` and `keyOf_eq` say that the
program computes it, whatever the key's stack slot holds.

# The round trip

Two halves of a key come back as they went in (`pairKey_source`,
`pairKey_dest`), so the dump prints a frame's own addresses or its own
error, unless the addresses are those the dump takes for an error. The
program's comment has the error pair as 0.5.18.18 and 15.18.0.X, and so
as a network that nobody in sight uses; but the constants are compared
with addresses as they are stored, in the other byte order, where they
are 18.18.5.0 and X.0.18.15. A packet between those is a packet like any
other, and `roundTrips_iff` says it is the only one to be misread.
-/
import XdpIds.CountIps.Dump
import XdpIds.Packet.Proofs.Exits

namespace XdpIds.CountIps

variable {f : Frame} {slot : UInt64} {code : Int}

-- ==================================================================== the key

/-- The key that stands for an exit. -/
def errorKey (code : Int) : UInt64 :=
  pairKey errorSource (destIpError code)

/-- The key of a frame. -/
def ipKey (f : Frame) : UInt64 :=
  if f.headerExit = 0 then pairKey f.saddr f.daddr
  else errorKey f.headerExit

theorem ipKey_ip (h : f.headerExit = 0) :
    ipKey f = pairKey f.saddr f.daddr := by
  rw [ipKey, if_pos h]

theorem ipKey_error (h : f.headerExit ≠ 0) :
    ipKey f = errorKey f.headerExit := by
  rw [ipKey, if_neg h]

/-- `parse_update` returns the code of the header checks and the length
on every exit, and the addresses when the code is 0. -/
theorem parseUpdate_eq (f : Frame) (slot : UInt64) :
    parseUpdate f slot = .ok (f.headerExit,
      if f.headerExit = 0 then pairKey f.saddr f.daddr else slot,
      f.size) := by
  refine (headerChecks_eq f (fun code => .ok (code, slot, f.size)) _).trans ?_
  by_cases hexit : f.headerExit = 0
  · have hlen := (headerExit_zero_iff.mp hexit).len
    unfold sizeofEthhdr sizeofIphdr at hlen
    rw [if_pos hexit, if_pos hexit, hexit,
      Frame.load32_eq (by unfold sizeofEthhdr; omega),
      Frame.load32_eq (by unfold sizeofEthhdr; omega)]
    rfl
  · rw [if_neg hexit, if_neg hexit]

/-- A frame is counted under its key, with its length. -/
theorem keyOf_eq (f : Frame) (slot : UInt64) :
    keyOf f slot = .ok (ipKey f, f.size) := by
  rw [keyOf, parseUpdate_eq]
  show (if f.headerExit < 0 then _ else _) = _
  by_cases hexit : f.headerExit = 0
  · rw [ipKey_ip hexit, hexit]
    rfl
  · have hneg : f.headerExit < 0 := by
      have hcases := headerExit_cases f
      omega
    rw [ipKey_error hexit, if_pos hneg]
    rfl

-- =============================================================== the two halves

theorem pairKey_source (saddr daddr : UInt32) :
    (pairKey saddr daddr >>> 32).toUInt32 = saddr := by
  apply UInt32.eq_of_toBitVec_eq
  ext i hi
  simp [pairKey]
  grind

theorem pairKey_toUInt32 (saddr daddr : UInt32) :
    (pairKey saddr daddr).toUInt32 = daddr := by
  apply UInt32.eq_of_toBitVec_eq
  ext i
  simp [pairKey]

theorem pairKey_dest (saddr daddr : UInt32) :
    (pairKey saddr daddr &&& 0xFFFFFFFF).toUInt32 = daddr := by
  have hmask : (pairKey saddr daddr &&& 0xFFFFFFFF).toUInt32
      = (pairKey saddr daddr).toUInt32 := by
    apply UInt32.toNat_inj.mp
    have hones : (0xFFFFFFFF : UInt64).toNat = 2 ^ 32 - 1 := rfl
    rw [UInt64.toNat_toUInt32, UInt64.toNat_toUInt32, UInt64.toNat_and,
      hones, Nat.and_two_pow_sub_one_eq_mod, Nat.mod_mod]
  rw [hmask, pairKey_toUInt32]

theorem pairKey_inj {s s' d d' : UInt32} (h : pairKey s d = pairKey s' d') :
    s = s' ∧ d = d' := by
  constructor
  · rw [← pairKey_source s d, h, pairKey_source]
  · rw [← pairKey_toUInt32 s d, h, pairKey_toUInt32]

-- =============================================================== the addresses

section Bytes

variable (b₀ b₁ b₂ b₃ : UInt8)

theorem raw32_toNat : (Frame.raw32 b₀ b₁ b₂ b₃).toNat
    = b₀.toNat + 2 ^ 8 * b₁.toNat + 2 ^ 16 * b₂.toNat
      + 2 ^ 24 * b₃.toNat := by
  have h₀ := b₀.toNat_lt
  have h₁ := b₁.toNat_lt
  have h₂ := b₂.toNat_lt
  have h₃ := b₃.toNat_lt
  rw [Frame.raw32, UInt32.toNat_ofNat', Nat.mod_eq_of_lt (by omega)]

/-- An address is printed byte by byte, as it was received. -/
theorem inetNtop_raw32 :
    inetNtop (Frame.raw32 b₀ b₁ b₂ b₃) = dotted b₀ b₁ b₂ b₃ := by
  have h₀ := b₀.toNat_lt
  have h₁ := b₁.toNat_lt
  have h₂ := b₂.toNat_lt
  have h₃ := b₃.toNat_lt
  have hraw := raw32_toNat b₀ b₁ b₂ b₃
  have hbyte : ∀ (n : UInt32) (b : UInt8),
      (Frame.raw32 b₀ b₁ b₂ b₃).toNat / 2 ^ (n.toNat % 32) % 2 ^ 8 = b.toNat →
      (Frame.raw32 b₀ b₁ b₂ b₃ >>> n).toUInt8 = b := by
    intro n b h
    rw [← UInt8.toNat_inj, UInt32.toNat_toUInt8, UInt32.toNat_shiftRight,
      Nat.shiftRight_eq_div_pow]
    exact h
  have hfirst : (Frame.raw32 b₀ b₁ b₂ b₃).toUInt8 = b₀ := by
    rw [← UInt8.toNat_inj, UInt32.toNat_toUInt8]
    omega
  rw [inetNtop, hfirst, hbyte 8 b₁, hbyte 16 b₂, hbyte 24 b₃]
  · show _ / 2 ^ 24 % _ = _
    omega
  · show _ / 2 ^ 16 % _ = _
    omega
  · show _ / 2 ^ 8 % _ = _
    omega

/-- The dump's test of the source address. -/
theorem raw32_source : Frame.raw32 b₀ b₁ b₂ b₃ = 0x00051212
    ↔ b₀ = 18 ∧ b₁ = 18 ∧ b₂ = 5 ∧ b₃ = 0 := by
  have h₀ := b₀.toNat_lt
  have h₁ := b₁.toNat_lt
  have h₂ := b₂.toNat_lt
  have h₃ := b₃.toNat_lt
  rw [← UInt32.toNat_inj, raw32_toNat, ← UInt8.toNat_inj, ← UInt8.toNat_inj,
    ← UInt8.toNat_inj, ← UInt8.toNat_inj]
  show _ = 0x00051212 ↔ _ = 18 ∧ _ = 18 ∧ _ = 5 ∧ _ = 0
  omega

/-- The dump's test of the destination address. -/
theorem raw32_dest : Frame.raw32 b₀ b₁ b₂ b₃ &&& 0xFFFFFF00 = 0x0f120000
    ↔ b₁ = 0 ∧ b₂ = 18 ∧ b₃ = 15 := by
  have h₀ := b₀.toNat_lt
  have h₁ := b₁.toNat_lt
  have h₂ := b₂.toNat_lt
  have h₃ := b₃.toNat_lt
  have hmask : ∀ a : UInt32,
      (a &&& 0xFFFFFF00).toNat = a.toNat / 2 ^ 8 * 2 ^ 8 := by
    intro a
    have hclear : a &&& (0xFFFFFF00 : UInt32) = a >>> 8 <<< 8 := by
      apply UInt32.eq_of_toBitVec_eq
      exact (BitVec.shiftLeft_ushiftRight (x := a.toBitVec) (n := 8)).symm
    have hlt := a.toNat_lt
    rw [hclear, UInt32.toNat_shiftLeft, UInt32.toNat_shiftRight,
      Nat.shiftLeft_eq, Nat.shiftRight_eq_div_pow]
    show a.toNat / 2 ^ 8 * 2 ^ 8 % 2 ^ 32 = _
    omega
  rw [← UInt32.toNat_inj, hmask, raw32_toNat, ← UInt8.toNat_inj,
    ← UInt8.toNat_inj, ← UInt8.toNat_inj]
  show _ = 0x0f120000 ↔ _ = 0 ∧ _ = 18 ∧ _ = 15
  omega

end Bytes

-- ============================================================== the round trip

/-- The dump's name for an exit. -/
def errorLabel (code : Int) : String :=
  if code = -1 then "1:TooShortEth"
  else if code = -2 then "2:NotIP"
  else "3:TooShortIP"

/-- The two addresses of a frame, as text. -/
def addresses (f : Frame) : String × String :=
  (dotted (f.byte 26) (f.byte 27) (f.byte 28) (f.byte 29),
    dotted (f.byte 30) (f.byte 31) (f.byte 32) (f.byte 33))

/-- The key a frame is counted under comes back as its addresses if the
frame parsed, and is then no error's, and as its error if it did not. -/
def RoundTrips (f : Frame) (slot : UInt64) : Prop :=
  ∃ code parsed key size, parseUpdate f slot = .ok (code, parsed, size)
    ∧ keyOf f slot = .ok (key, size)
    ∧ (code = 0 → decode key = addresses f ∧ ∀ c, key ≠ errorKey c)
    ∧ (code ≠ 0 → (code = -1 ∨ code = -2 ∨ code = -3)
        ∧ decode key = ("ERROR", errorLabel code))

/-- From 18.18.5.0, to X.0.18.15. -/
def TakenForError (f : Frame) : Prop :=
  (f.byte 26 = 18 ∧ f.byte 27 = 18 ∧ f.byte 28 = 5 ∧ f.byte 29 = 0)
    ∧ f.byte 31 = 0 ∧ f.byte 32 = 18 ∧ f.byte 33 = 15

theorem decode_pairKey (saddr daddr : UInt32) :
    decode (pairKey saddr daddr)
      = if saddr = 0x00051212 ∧ daddr &&& 0xFFFFFF00 = 0x0f120000 then
          ("ERROR", errorName (daddr &&& 0xFF))
        else (inetNtop saddr, inetNtop daddr) := by
  unfold decode
  rw [pairKey_source, pairKey_dest]

/-- An error comes back as itself. -/
theorem decode_errorKey (h : code = -1 ∨ code = -2 ∨ code = -3) :
    decode (errorKey code) = ("ERROR", errorLabel code) := by
  rw [errorKey, decode_pairKey]
  rcases h with rfl | rfl | rfl <;> rfl

/-- The dump's test, on a frame's addresses. -/
theorem takenForError_iff :
    (f.saddr = 0x00051212 ∧ f.daddr &&& 0xFFFFFF00 = 0x0f120000)
      ↔ TakenForError f :=
  and_congr (raw32_source _ _ _ _) (raw32_dest _ _ _ _)

/-- An address as it is printed has a dot in it. -/
theorem dotted_ne_error (b₀ b₁ b₂ b₃ : UInt8) :
    dotted b₀ b₁ b₂ b₃ ≠ "ERROR" := by
  intro h
  have hdot : '.' ∈ (dotted b₀ b₁ b₂ b₃).toList := by
    unfold dotted
    simp
  rw [h] at hdot
  simp at hdot

theorem errorKey_taken (h : ipKey f = errorKey code)
    (hexit : f.headerExit = 0) : TakenForError f := by
  rw [ipKey_ip hexit] at h
  obtain ⟨hsource, hdest⟩ := pairKey_inj h
  rw [← takenForError_iff, hsource, hdest]
  refine ⟨rfl, ?_⟩
  unfold destIpError
  split_ifs <;> rfl

/-- A frame that parsed comes back as itself unless its addresses are
taken for an error. -/
theorem decode_ip_iff (hexit : f.headerExit = 0) :
    (decode (ipKey f) = addresses f ∧ ∀ c, ipKey f ≠ errorKey c)
      ↔ ¬ TakenForError f := by
  have haddresses : addresses f = (inetNtop f.saddr, inetNtop f.daddr) := by
    unfold Frame.saddr Frame.daddr Frame.word32 addresses
    rw [inetNtop_raw32, inetNtop_raw32]
    rfl
  constructor
  · rintro ⟨hdecode, -⟩ htaken
    rw [ipKey_ip hexit, decode_pairKey, if_pos (takenForError_iff.mpr htaken)]
      at hdecode
    exact dotted_ne_error _ _ _ _ (Prod.mk.inj hdecode).1.symm
  · intro hplain
    refine ⟨?_, fun c h => hplain (errorKey_taken h hexit)⟩
    rw [ipKey_ip hexit, decode_pairKey,
      if_neg fun h => hplain (takenForError_iff.mp h), haddresses]

/-- Every frame's key round-trips, except a parsed one's whose addresses
are taken for an error. -/
theorem roundTrips_iff (f : Frame) (slot : UInt64) :
    RoundTrips f slot ↔ ¬ (f.IsIp ∧ TakenForError f) := by
  rw [← headerExit_zero_iff]
  constructor
  · rintro ⟨code, parsed, key, size, hparse, hkey, hzero, -⟩ ⟨hexit, htaken⟩
    rw [parseUpdate_eq] at hparse
    rw [keyOf_eq] at hkey
    obtain ⟨rfl, -⟩ := Prod.mk.inj (Except.ok.inj hparse)
    obtain ⟨rfl, -⟩ := Prod.mk.inj (Except.ok.inj hkey)
    exact (decode_ip_iff hexit).mp (hzero hexit) htaken
  · intro hplain
    refine ⟨_, _, _, _, parseUpdate_eq f slot, keyOf_eq f slot, ?_, ?_⟩
    · intro hexit
      exact (decode_ip_iff hexit).mpr fun htaken => hplain ⟨hexit, htaken⟩
    · intro hexit
      have hcodes := (headerExit_cases f).resolve_left hexit
      rw [ipKey_error hexit]
      exact ⟨hcodes, decode_errorKey hcodes⟩

/-- A UDP packet from 18.18.5.0 to 1.0.18.15. -/
def markerUdp : Frame where
  bytes := List.replicate 12 0 ++ [0x08, 0x00, 0x45] ++ List.replicate 8 0
    ++ [17, 0, 0, 18, 18, 5, 0, 1, 0, 18, 15, 0, 68, 0, 53, 0, 8, 0, 0]
  len_lt := by simp

/-- It parses, and is counted as too short for an Ethernet header. -/
theorem marker_as_error :
    (∃ parsed, parseUpdate markerUdp 0 = .ok (0, parsed, 42))
      ∧ keyOf markerUdp 0 = .ok (errorKey (-1), 42)
      ∧ ¬ RoundTrips markerUdp 0 := by
  have hkey : keyOf markerUdp 0 = .ok (errorKey (-1), 42) := rfl
  refine ⟨⟨_, rfl⟩, hkey, ?_⟩
  rintro ⟨code, parsed, key, size, hparse, hkey', hzero, -⟩
  rw [hkey] at hkey'
  obtain ⟨rfl, -⟩ := Prod.mk.inj (Except.ok.inj hkey')
  obtain ⟨rfl, -⟩ := Prod.mk.inj (Except.ok.inj hparse)
  exact (hzero rfl).2 (-1) rfl

end XdpIds.CountIps
