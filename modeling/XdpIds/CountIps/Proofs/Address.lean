/-
Addresses as text: what `inet_ntop` prints is one word of digits and
dots, and can be read back.

`inetPton` is the reader. It is no code of the programs, whose output
others read; it says what that output means.
-/
import XdpIds.CountIps.Proofs.Key
import XdpIds.Lib.Text

namespace XdpIds.CountIps

open Text

/-- An address from its four numbers. -/
def inetPton (cs : List Char) : Option UInt32 :=
  match (cs.splitOn '.').mapM decimal? with
  | some [b₀, b₁, b₂, b₃] =>
      if b₀ < 256 ∧ b₁ < 256 ∧ b₂ < 256 ∧ b₃ < 256 then
        some (Frame.raw32 (.ofNat b₀) (.ofNat b₁) (.ofNat b₂) (.ofNat b₃))
      else none
  | _ => none

section Bytes

variable (b₀ b₁ b₂ b₃ : UInt8)

theorem toList_dotted :
    (dotted b₀ b₁ b₂ b₃).toList
      = joined '.' [decimal b₀.toNat, decimal b₁.toNat, decimal b₂.toNat,
          decimal b₃.toNat] := by
  have hnum : ∀ n : Nat, (toString n).toList = decimal n := fun _ =>
    Nat.toList_repr
  unfold dotted
  simp only [String.toList_append, hnum]
  simp [joined]

theorem inetPton_dotted :
    inetPton (dotted b₀ b₁ b₂ b₃).toList
      = some (Frame.raw32 b₀ b₁ b₂ b₃) := by
  have h₀ := b₀.toNat_lt
  have h₁ := b₁.toNat_lt
  have h₂ := b₂.toNat_lt
  have h₃ := b₃.toNat_lt
  have hsplit : (joined '.' [decimal b₀.toNat, decimal b₁.toNat,
      decimal b₂.toNat, decimal b₃.toNat]).splitOn '.'
        = [decimal b₀.toNat, decimal b₁.toNat, decimal b₂.toNat,
            decimal b₃.toNat] := by
    refine splitOn_joined (List.cons_ne_nil _ _) fun f hf => ?_
    simp only [List.mem_cons, List.not_mem_nil, or_false] at hf
    rcases hf with rfl | rfl | rfl | rfl
    all_goals exact not_mem_decimal _ rfl
  rw [inetPton, toList_dotted, hsplit]
  simp only [List.mapM_cons, List.mapM_nil, decimal?_decimal]
  show (if b₀.toNat < 256 ∧ b₁.toNat < 256 ∧ b₂.toNat < 256 ∧ b₃.toNat < 256
    then _ else _) = _
  rw [if_pos ⟨h₀, h₁, h₂, h₃⟩]
  simp only [UInt8.ofNat_toNat]

end Bytes

/-- An address is made of its bytes. -/
theorem exists_raw32 (a : UInt32) :
    ∃ b₀ b₁ b₂ b₃, a = Frame.raw32 b₀ b₁ b₂ b₃ := by
  refine ⟨.ofNat a.toNat, .ofNat (a.toNat / 2 ^ 8),
    .ofNat (a.toNat / 2 ^ 16), .ofNat (a.toNat / 2 ^ 24), ?_⟩
  have ha := a.toNat_lt
  rw [← UInt32.toNat_inj, raw32_toNat]
  simp only [UInt8.toNat_ofNat']
  omega

/-- What is printed of an address can be read back. -/
theorem inetPton_inetNtop (a : UInt32) :
    inetPton (inetNtop a).toList = some a := by
  obtain ⟨b₀, b₁, b₂, b₃, rfl⟩ := exists_raw32 a
  rw [inetNtop_raw32, inetPton_dotted]

/-- Digits and dots. -/
theorem not_mem_inetNtop {c : Char} (a : UInt32) (hdigit : c.isDigit = false)
    (hdot : c ≠ '.') : c ∉ (inetNtop a).toList := by
  obtain ⟨b₀, b₁, b₂, b₃, rfl⟩ := exists_raw32 a
  rw [inetNtop_raw32, toList_dotted]
  refine not_mem_joined hdot fun f hf => ?_
  simp only [List.mem_cons, List.not_mem_nil, or_false] at hf
  rcases hf with rfl | rfl | rfl | rfl
  all_goals exact not_mem_decimal _ hdigit

/-- An address is a word between separators that are neither. -/
theorem isWord_inetNtop {isSep : Char → Bool} (a : UInt32)
    (hdigit : ∀ c, isSep c = true → c.isDigit = false)
    (hdot : isSep '.' = false) : IsWord isSep (inetNtop a).toList := by
  constructor
  · intro h
    have hread := inetPton_inetNtop a
    rw [h] at hread
    cases hread
  · intro c hc
    refine Bool.eq_false_iff.mpr fun hsep => ?_
    refine not_mem_inetNtop a (hdigit c hsep) (fun h => ?_) hc
    rw [h, hdot] at hsep
    cases hsep

end XdpIds.CountIps
