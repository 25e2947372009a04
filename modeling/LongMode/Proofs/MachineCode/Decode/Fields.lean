import LongMode.MachineCode.Fields
import LongMode.Proofs.Arith.Signed
import LongMode.Proofs.Assembly.Shape

/-!
# Reading the fields

The rule by which a processor finds registers, addresses and numbers in the fields of machine code.

* `View.ofNumber`: a register number of four bits; 4 to 7 are ah to bh for bytes without REX.
* `ModRm.address?`: the address of a ModRM byte with its SIB byte and displacement.
* `signedOf`: the number that bytes hold in two's complement.

Each of them undoes what the encoder does (`ofNumber_extend`, `address?_addressModRm`, `signedOf_signedBytes`).
-/

namespace LongMode

/-! ### Numbers -/

/-- The number that bytes hold in two's complement, the lowest byte first. -/
def signedOf (bytes : List UInt8) : Int := signed (8 * bytes.length) (ofLittleEndian bytes)

@[simp] theorem length_signedBytes (n : Nat) (z : Int) : (signedBytes n z).length = n :=
  length_littleEndian n _

theorem signedOf_signedBytes {n : Nat} {z : Int} (hn : 0 < n) (hz : fitsSigned (8 * n) z = true) :
    signedOf (signedBytes n z) = z := by
  obtain ⟨hl, hu⟩ := fitsSigned_iff.1 hz
  have hlt := truncate_lt (8 * n) z
  have hpow : 256 ^ n = 2 ^ (8 * n) := by rw [Nat.pow_mul]
  have hmod : ((truncate (8 * n) z : Nat) : Int) = z % 2 ^ (8 * n) :=
    Int.toNat_of_nonneg (Int.emod_nonneg _ (Int.ne_of_gt (Int.pow_pos (by decide))))
  unfold signedOf
  rw [length_signedBytes, signedBytes, ofLittleEndian_littleEndian, hpow, Nat.mod_eq_of_lt hlt, hmod]
  rw [signed_congr (Int.emod_emod_of_dvd z (Int.dvd_refl _))]
  exact signed_eq_self (by omega) hl hu

/-! ### Registers -/

/-- The number of a register: an extension bit above a field. -/
def extend (extension : Bool) (field : Fin 8) : Fin 16 := Fin.ofNat 16 (8 * extension.toNat + field.val)

def Cell.ofNumber (n : Fin 16) : Cell := Cell.all.get (n.cast rfl)

theorem Cell.ofNumber_extend (c : Cell) : Cell.ofNumber (extend c.isExtended c.field) = c := by
  cases c <;> rfl

def HighByte.ofNumber (n : Nat) : HighByte := (HighByte.all[n]?).getD .ah

/-- The view of a register number at a width, beside REX or without it. -/
def View.ofNumber (hasRex : Bool) (w : Width) (n : Fin 16) : View :=
  if w = .byte ∧ hasRex = false ∧ 4 ≤ n.val ∧ n.val < 8 then .high (.ofNumber (n.val - 4)) else .low (.ofNumber n) w

theorem View.ofNumber_extend {v : View} {hasRex : Bool} (hh : v.isHighByte = true → hasRex = false)
    (hn : v.needsRex = true → hasRex = true) : View.ofNumber hasRex v.width (extend v.isExtended v.field) = v := by
  cases v with
  | low c w =>
    cases w with
    | byte => cases hasRex <;> cases c <;> first | rfl | exact absurd (hn rfl) (by decide)
    | _ => cases c <;> rfl
  | high b =>
    obtain rfl := hh rfl
    cases b <;> rfl

/-- What an instruction without REX has in place of its bits. -/
def Rex.absent : Rex := ⟨false, false, false, false⟩

/-! ### Addresses -/

def Scale.ofField : Fin 4 → Scale
  | 0 => one
  | 1 => two
  | 2 => four
  | 3 => eight

theorem Scale.ofField_field (s : Scale) : Scale.ofField s.field = s := by
  cases s <;> rfl

namespace ModRm

/-- The field that the base of an address stands in. -/
def baseField (rm : Fin 8) : Option Sib → Fin 8
  | some s => s.base
  | none => rm

/-- The number of bytes that the displacement takes. -/
def displacementSize (mode : Fin 4) (base : Fin 8) : Nat :=
  match mode with
  | 0 => if base = 5 then 4 else 0
  | 1 => 1
  | 2 => 4
  | 3 => 0

/-- The parts that the byte announces are there, and no others. -/
structure IsLaidOut (m : ModRm) : Prop where
  sib : m.sib.isSome = true ↔ m.mode ≠ 3 ∧ m.rm = 4
  displacement : m.displacement.length = displacementSize m.mode (baseField m.rm m.sib)

/-- The address of a ModRM byte.  Without a SIB byte, mode 0 and base number 5 stand for no address here: that form
counts from the instruction pointer. -/
def address? (rex : Rex) (m : ModRm) : Option Address :=
  if m.mode = 3 then none
  else match m.sib with
    | some s =>
      let base := if m.mode = 0 ∧ s.base = 5 then none else some (Cell.ofNumber (extend rex.b s.base))
      let number := extend rex.x s.index
      let index := if number = 4 then none else some (Cell.ofNumber number)
      some ⟨base, index, Scale.ofField s.scale, signedOf m.displacement⟩
    | none =>
      if m.mode = 0 ∧ m.rm = 5 then none
      else some ⟨some (Cell.ofNumber (extend rex.b m.rm)), none, .one, signedOf m.displacement⟩

/-- The register or the location of an access that the r/m field says. -/
def place? (rex : Option Rex) (w : Width) (m : ModRm) : Option Place :=
  let bits := rex.getD .absent
  if m.mode = 3 then some (.register (.ofNumber rex.isSome w (extend bits.b m.rm)))
  else (m.address? bits).map fun a => .memory ⟨a, w⟩

end ModRm

namespace MachineCode

private theorem index_extend {index : Option Cell} (h : index ≠ some .rsp) :
    (if extend (index.any Cell.isExtended) (indexField index) = 4 then none
      else some (Cell.ofNumber (extend (index.any Cell.isExtended) (indexField index)))) = index := by
  cases index with
  | none => rfl
  | some c => cases c <;> first | rfl | exact absurd rfl h

private theorem displacementFor_spec {base : Fin 8} {disp : Int} (h : fitsSigned 32 disp = true) :
    (displacementFor base disp).1 ≠ 3 ∧ ¬ ((displacementFor base disp).1 = 0 ∧ base = 5) ∧
      (displacementFor base disp).2.length = ModRm.displacementSize (displacementFor base disp).1 base ∧
      signedOf (displacementFor base disp).2 = disp := by
  unfold displacementFor
  split
  · rename_i h0
    refine ⟨by simp, fun h => h0.2 h.2, by simp [ModRm.displacementSize, h0.2], ?_⟩
    rw [h0.1]
    rfl
  · split
    · rename_i h8
      exact ⟨by simp, by simp, rfl, signedOf_signedBytes (by decide) h8⟩
    · exact ⟨by simp, by simp, rfl, signedOf_signedBytes (by decide) h⟩

theorem address?_addressModRm {reg : Fin 8} {a : Address} {m : ModRm} (ha : a.WellFormed)
    (h : addressModRm reg a = .ok m) :
    (∀ rex : Rex, rex.x = a.index.any Cell.isExtended → rex.b = a.base.any Cell.isExtended → m.address? rex = some a) ∧
      m.mode ≠ 3 ∧ m.reg = reg ∧ m.IsLaidOut := by
  unfold addressModRm at h
  split at h
  · cases h
  · rename_i hfar
    have hfar : fitsSigned 32 a.displacement = true := by simpa using hfar
    obtain ⟨base, index, scale, displacement⟩ := a
    cases base with
    | none =>
      cases h
      refine ⟨fun rex hx _ => ?_, by simp, rfl, by simp, rfl⟩
      have hd : signedOf (signedBytes 4 displacement) = displacement := signedOf_signedBytes (by decide) hfar
      simp [ModRm.address?, hx, index_extend ha.index_ne, Scale.ofField_field, hd]
    | some base =>
      obtain ⟨hmode, hrip, hlen, hd⟩ := @displacementFor_spec base.field _ hfar
      dsimp only at h
      split at h
      · rename_i hplain
        obtain ⟨rfl, hfield⟩ := hplain
        obtain rfl : scale = .one := ha.scale_eq rfl
        cases h
        refine ⟨fun rex _ hrex => ?_, hmode, rfl, by simp [hfield], hlen⟩
        rw [Option.any_some] at hrex
        simp [ModRm.address?, hmode, hrip, hrex, Cell.ofNumber_extend, hd]
      · cases h
        refine ⟨fun rex hx hrex => ?_, hmode, rfl, by simp [hmode], hlen⟩
        rw [Option.any_some] at hrex
        simp [ModRm.address?, hmode, hrip, hrex, hx, index_extend ha.index_ne, Cell.ofNumber_extend,
          Scale.ofField_field, hd]

/-! ### Filled forms -/

/-- REX is left out only where it says nothing, and its presence agrees with the registers beside it. -/
theorem rexFor_eq_ok {rex : Rex} {views : List View} {r : Option Rex} (h : rexFor rex views = .ok r) :
    r.getD .absent = rex ∧
      ∀ v ∈ views, (v.isHighByte = true → r.isSome = false) ∧ (v.needsRex = true → r.isSome = true) := by
  unfold rexFor at h
  split at h
  · split at h
    · cases h
    · rename_i hhigh
      cases h
      simp only [List.any_eq_true, not_exists, not_and] at hhigh
      exact ⟨rfl, fun v hv => ⟨fun hh => absurd hh (hhigh v hv), fun _ => rfl⟩⟩
  · rename_i hbits
    cases h
    simp only [Bool.or_eq_true, List.any_eq_true, not_or, not_exists, not_and, Bool.not_eq_true] at hbits
    obtain ⟨⟨⟨⟨hw, hr⟩, hx⟩, hb⟩, hn⟩ := hbits
    refine ⟨?_, fun v hv => ⟨fun _ => rfl, fun hv' => absurd hv' (by simp [hn v hv])⟩⟩
    rcases rex with ⟨w, r, x, b⟩
    simp_all [Rex.absent]

end MachineCode

/-- REX, or what stands for it. -/
def Code.rexBits (c : Code) : Rex := c.rex.getD .absent

namespace MachineCode

/-- Machine code of a form with a ModRM byte. -/
structure Form.Fills (f : Form) (reg : RegOperand) (p : Place) (c : Code) : Prop where
  operandSize : c.operandSize = (f.width == .word)
  selects : c.rexBits.w = selectsQword f.width f.qwordByDefault
  opcode : c.opcode = f.opcode
  immediate : c.immediate = f.immediate
  modRm : ∃ m, c.modRm = some m ∧ m.IsLaidOut ∧ m.reg = reg.field ∧ m.place? c.rex p.width = some p
  register : ∀ v, reg = .register v → View.ofNumber c.rex.isSome v.width (extend c.rexBits.r v.field) = v

theorem Form.fills_of_withModRm {f : Form} {reg : RegOperand} {p : Place} {c : Code}
    (hp : ∀ l, p = .memory l → l.address.WellFormed) (h : f.withModRm reg (.ofPlace p) = .ok c) : f.Fills reg p c := by
  unfold Form.withModRm at h
  obtain ⟨r, hr, h⟩ := bind_eq_ok.1 h
  obtain ⟨m, hm, h⟩ := bind_eq_ok.1 h
  cases h
  obtain ⟨hbits, hviews⟩ := rexFor_eq_ok hr
  refine ⟨rfl, by rw [Code.rexBits, hbits], rfl, rfl, ⟨m, rfl, ?_⟩, fun v hv => ?_⟩
  · cases p with
    | register v =>
      cases hm
      refine ⟨⟨by simp, rfl⟩, rfl, ?_⟩
      obtain ⟨hh, hn⟩ := hviews v (by simp [RmOperand.ofPlace, RmOperand.views])
      simp only [ModRm.place?, hbits, RmOperand.ofPlace, if_true]
      rw [Place.width, View.ofNumber_extend hh hn]
    | memory l =>
      obtain ⟨ha, hmode, hreg, hlaid⟩ := address?_addressModRm (hp l rfl) hm
      refine ⟨hlaid, hreg, ?_⟩
      rw [ModRm.place?, if_neg hmode, ha _ (by rw [hbits]; rfl) (by rw [hbits]; rfl)]
      rfl
  · subst hv
    obtain ⟨hh, hn⟩ := hviews v (by simp [RegOperand.views])
    rw [Code.rexBits, hbits]
    exact View.ofNumber_extend hh hn

end MachineCode

end LongMode
