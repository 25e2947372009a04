import LongMode.Proofs.Untyped.Encoding

/-!
# Machine code from names

Views, scales and fields are found where the library has them, every number that becomes a byte is one, and a frame is
put together to the bytes of the code of its form.

* `about` and `coded`: results of the library, as they are said of an instruction.
* `memoryModRm_eq`: the fields of an address.
* `assemble_register`, `assemble_digit`, `assemble_opcodeRegister` and `assemble_implied`: one for each kind of form.
-/

namespace LongMode

/-- What is said of an encoding error. -/
def EncodeError.notice (e : EncodeError) : Untyped.Notice EncodeErrorKind :=
  ⟨e.cause.kind, e.instruction.text ++ ": " ++ e.cause.message⟩

namespace Untyped

open MachineCode

variable {ε α β : Type} {i : LongMode.Instruction}

/-- A result of a step of the encoder, said of an instruction. -/
def about (i : LongMode.Instruction) (x : Except EncodeCause α) : Coding α :=
  settled (x.mapError fun c => EncodeError.notice ⟨i, c⟩)

/-- The bytes of a result of the encoder. -/
def coded (i : LongMode.Instruction) (x : Except EncodeCause Code) : Coding (List UInt8) := about i (x.map Code.bytes)

theorem reject_erase (c : EncodeCause) : (i.erase.reject c : Coding α) = about i (.error c) := refuse_erase i _ _

/-! ### Bytes -/

theorem byte_of_eq {z : Int} {n : Nat} (hz : z = n) (hn : n < 256) :
    (byte z : Partial ε UInt8) = .ok (UInt8.ofNat n) := by
  subst hz
  rw [byte, if_pos (by omega), Int.toNat_natCast]

theorem bytes_cons {z : Int} {l : List Int} {b : UInt8} {rest : List UInt8} (hz : (byte z : Partial ε UInt8) = .ok b)
    (hl : (bytes l : Partial ε _) = .ok rest) : (bytes (z :: l) : Partial ε (List UInt8)) = .ok (b :: rest) := by
  unfold bytes at hl ⊢
  rw [List.mapM_cons, hz, hl]
  rfl

theorem bytes_toNat (l : List UInt8) : (bytes (l.map fun b => (b.toNat : Int)) : Partial ε (List UInt8)) = .ok l := by
  induction l with
  | nil => rfl
  | cons b rest ih => exact bytes_cons ((byte_of_eq rfl b.toNat_lt).trans (by simp)) ih

/-! ### Registers -/

theorem field_erase (v : View) :
    ((LongMode.Operand.register v).erase.field : Partial ε Int) = .ok (v.field.val : Int) := by
  simp only [LongMode.Operand.erase, Operand.field, Operand.view, viewNamed_name]
  rfl

theorem isAccumulator_erase (p : Place) : (p.operand.erase.isAccumulator : Partial ε Bool) = .ok p.isAccumulator := by
  cases p with
  | register v =>
    have hv : (v.cell.number.val == 0 && !v.isHighByte) = (Place.register v).isAccumulator := by
      cases v with
      | low c w => cases c <;> rfl
      | high b => cases b <;> rfl
    simp only [Place.operand, LongMode.Operand.erase, Operand.isAccumulator, viewNamed_name]
    exact congrArg Except.ok hv
  | memory l => rfl

theorem contains_bits (widths : List Width) (w : Width) :
    (widths.map Width.bits).contains w.bits = widths.contains w := by
  rw [Bool.eq_iff_iff, List.contains_iff_mem, List.contains_iff_mem, List.mem_map]
  exact ⟨fun ⟨v, hv, he⟩ => Width.eq_of_bits_eq he ▸ hv, fun hw => ⟨w, hw, rfl⟩⟩

theorem contains_vector_bits (widths : List Width) : (widths.map Width.bits).contains VectorRegister.bits = false := by
  rw [Bool.eq_false_iff, Ne, List.contains_iff_mem, List.mem_map]
  rintro ⟨w, -, hw⟩
  cases w <;> cases hw

theorem isVector_erase (o : LongMode.Operand) : o.erase.isVector = o.isVector := by
  cases o with
  | register v =>
    cases v with
    | low c w => cases w <;> rfl
    | high b => rfl
  | _ => rfl

theorem width_register (v : View) : (LongMode.Operand.register v).erase.width = v.bits := rfl

theorem width_place (p : Place) : p.operand.erase.width = p.width.bits := by cases p <;> rfl

private theorem isExtended_cell (c : Option Cell) :
    (isExtended (c.map Cell.name) : Partial ε Bool) = .ok (c.any Cell.isExtended) := by
  cases c with
  | none => rfl
  | some c =>
    simp only [Option.map_some, isExtended, viewNamed_cell]
    rfl

private theorem extensions_erase (p : Place) :
    (extensions (some p.operand.erase) : Partial ε _) = .ok (RmOperand.ofPlace p).extensions := by
  cases p with
  | register v =>
    simp only [Place.operand, LongMode.Operand.erase, extensions, isExtended, viewNamed_name]
    rfl
  | memory l =>
    simp only [Place.operand, LongMode.Operand.erase, extensions, isExtended_cell]
    rfl

private theorem extension_erase (v : View) :
    (extension (some (LongMode.Operand.register v).erase) : Partial ε Bool) = .ok v.isExtended := by
  simp only [extension, LongMode.Operand.erase, Operand.view, viewNamed_name]
  rfl

private theorem view_erase (v : View) : ((LongMode.Operand.register v).erase.view : Partial ε View) = .ok v :=
  viewNamed_name v

/-- The registers of an operand of the r/m field. -/
private theorem views_erase (p : Place) (l : List View) :
    (((p.operand.erase :: l.map fun v => (LongMode.Operand.register v).erase).filter Operand.isRegister).mapM
      Operand.view : Partial ε (List View)) = .ok ((RmOperand.ofPlace p).views ++ l) := by
  have hl : (((l.map fun v => (LongMode.Operand.register v).erase).filter Operand.isRegister).mapM Operand.view :
      Partial ε (List View)) = .ok l := by
    have hall : ∀ o ∈ l.map fun v => (LongMode.Operand.register v).erase, o.isRegister = true := by
      simp [LongMode.Operand.erase, Operand.isRegister]
    rw [List.filter_eq_self.2 hall, mapM_eq_ok, List.map_map]
    exact List.map_congr_left fun v _ => view_erase v
  cases p with
  | register v =>
    rw [List.filter_cons_of_pos rfl, List.mapM_cons, hl]
    simp only [Place.operand, view_erase]
    rfl
  | memory l =>
    rw [List.filter_cons_of_neg (by simp [Place.operand, LongMode.Operand.erase, Operand.isRegister]), hl]
    rfl

/-! ### Addresses -/

private theorem displacement_eq (base : Fin 8) (disp : Int) :
    (displacement base.val disp : Partial ε _) =
      .ok (((displacementFor base disp).1.val : Int), (displacementFor base disp).2) := by
  have hbase : (base.val : Int) ≠ 5 ↔ base ≠ 5 := by
    rw [Ne, Ne, Fin.ext_iff]
    exact not_congr Int.ofNat_inj
  simp only [displacement, displacementFor, hbase, fitsSigned_eq (w := 8) (by decide), signedBytes_eq]
  split
  · rfl
  · split <;> rename_i h <;> simp only [bind, Except.bind, h] <;> rfl

private theorem modRm_byte (mode : Fin 4) (reg rm : Fin 8) :
    (byte (64 * (mode.val : Int) + 8 * (reg.val : Int) + (rm.val : Int)) : Partial ε UInt8) =
      .ok (UInt8.ofNat (64 * mode.val + 8 * reg.val + rm.val)) :=
  byte_of_eq (by simp) (by omega)

private theorem sib_byte (s : Sib) :
    (byte (64 * (s.scale.val : Int) + 8 * (s.index.val : Int) + (s.base.val : Int)) : Partial ε UInt8) = .ok s.byte :=
  byte_of_eq (by simp) (by omega)

private theorem views_cells (c : Option Cell) :
    ((c.map Cell.name).mapM viewNamed : Partial ε (Option View)) = .ok (c.map fun c => .low c .qword) := by
  cases c with
  | none => rfl
  | some c =>
    simp only [Option.map_some, Option.mapM_some, viewNamed_cell]
    rfl

theorem memoryModRm_eq (reg : Fin 8) (a : Address) :
    memoryModRm i.erase reg.val (a.base.map Cell.name) (a.index.map Cell.name) a.scale.factor a.displacement =
      about i ((addressModRm reg a).map ModRm.bytes) := by
  obtain ⟨base, index, scale, disp⟩ := a
  have hscale : (find scaleFields scale.factor : Coding Int) = .ok (scale.field.val : Int) := by cases scale <;> rfl
  have hindex : ((index.map fun c => View.low c .qword).map fun v => (v.cell.number.val : Int) % 8).getD 4 =
      ((indexField index).val : Int) := by
    cases index <;> rfl
  have hsib (base : Fin 8) := sib_byte (ε := Notice EncodeErrorKind) ⟨scale.field, indexField index, base⟩
  simp only [memoryModRm, addressModRm, fitsSigned_eq (w := 32) (by decide), ok_bind]
  by_cases hd : LongMode.fitsSigned 32 disp = true
  · simp only [hd, Bool.not_true, Bool.false_eq_true, if_false, views_cells, hscale, hindex, signedBytes_eq, ok_bind]
    cases base with
    | none =>
      have hmodRm := byte_of_eq (ε := Notice EncodeErrorKind) (z := 8 * (reg.val : Int) + 4)
        (n := 64 * 0 + 8 * reg.val + 4) (by omega) (by omega)
      exact congrArg (· >>= _) (bytes_cons hmodRm (bytes_cons (hsib 5) rfl))
    | some b =>
      have hbase : ((View.low b .qword).cell.number.val : Int) % 8 = (b.field.val : Int) := rfl
      have hcond : ((index.map fun c => View.low c .qword).isNone = true ∧ (b.field.val : Int) ≠ 4) ↔
          (index = none ∧ b.field ≠ 4) := by
        have h4 : (b.field.val : Int) = 4 ↔ b.field = 4 := by rw [Fin.ext_iff]; exact Int.ofNat_inj
        rw [Option.isNone_map, Option.isNone_iff_eq_none, Ne, Ne, h4]
      simp only [Option.map_some, hbase, displacement_eq, hcond, ok_bind]
      obtain ⟨mode, bytes⟩ := displacementFor b.field disp
      split
      · exact congrArg (· >>= _) (bytes_cons (modRm_byte mode reg b.field) rfl)
      · exact congrArg (· >>= _) (bytes_cons (modRm_byte mode reg 4) (bytes_cons (hsib b.field) rfl))
  · simp only [hd, Bool.not_false, if_true, reject_erase]
    rfl

/-! ### Forms -/

private theorem rexBytes_eq {f : Frame} {rex : Rex} {views : List View} {b₁ b₂ : Bool}
    (hviews : ((f.rm.toList ++ f.reg.toList ++ f.opcodeRegister.toList).filter Operand.isRegister).mapM Operand.view =
      (.ok views : Coding _))
    (hw : (f.width == 64 && !f.qwordByDefault) = rex.w) (hr : extension f.reg = (.ok rex.r : Coding _))
    (hx : extensions f.rm = (.ok (rex.x, b₁) : Coding _)) (ho : extension f.opcodeRegister = (.ok b₂ : Coding _))
    (hb : (b₁ || b₂) = rex.b) :
    rexBytes i.erase f = about i ((rexFor rex views).map fun r => (r.map Rex.byte).toList) := by
  have hbyte : (byte (0x40 + 8 * (rex.w.toNat : Int) + 4 * rex.r.toNat + 2 * rex.x.toNat + rex.b.toNat) :
      Coding UInt8) = .ok rex.byte := by
    have hw' := rex.w.toNat_le
    have hr' := rex.r.toNat_le
    have hx' := rex.x.toNat_le
    have hb' := rex.b.toNat_le
    exact byte_of_eq (by simp) (by omega)
  simp only [rexBytes, rexFor, hviews, hw, hr, hx, ho, hb, hbyte, ok_bind]
  split
  · split
    · exact reject_erase _
    · rfl
  · rfl

/-- The machine code of a frame, by its parts. -/
private theorem assemble_eq {f : Frame} {w : Width} {rex : Except EncodeCause (Option Rex)} {opcode : List UInt8}
    {m : Except EncodeCause (Option ModRm)} (hw : f.width = w.bits)
    (hrex : rexBytes i.erase f = about i (rex.map fun r => (r.map Rex.byte).toList))
    (hopcode : opcodeBytes f = .ok opcode)
    (hm : modRmBytes i.erase f = about i (m.map fun m => (m.map ModRm.bytes).getD [])) :
    assemble i.erase f =
      coded i (do return ⟨w == .word, ← rex, opcode, ← m, f.immediate⟩) := by
  have hsize : operandSizeBytes f = .ok (if w == .word then [0x66] else []) := by
    rw [operandSizeBytes, hw]
    cases w <;> rfl
  simp only [assemble, hsize, hrex, hopcode, hm, ok_bind]
  cases rex with
  | error c => rfl
  | ok rex =>
    cases m with
    | error c => rfl
    | ok m => cases m <;> rfl

/-- The register that stands in a reg field. -/
def regRegister : RegOperand → Option Operand
  | .register v => some (LongMode.Operand.register v).erase
  | .digit _ => none

/-- The digit that stands in a reg field. -/
def regDigit : RegOperand → Option Int
  | .register _ => none
  | .digit d => some d.val

private theorem modRmBytes_eq {f : Frame} {reg : RegOperand} {p : Place} (hrm : f.rm = some p.operand.erase)
    (hreg : f.reg = regRegister reg) (hdigit : f.digit = regDigit reg) :
    modRmBytes i.erase f = about i ((modRm reg.field (.ofPlace p)).map ModRm.bytes) := by
  have hfield : regField f = .ok (reg.field.val : Int) := by
    rw [regField, hreg, hdigit]
    cases reg with
    | register v => exact field_erase v
    | digit d => rfl
  unfold modRmBytes
  rw [hrm]
  simp only [hfield, ok_bind]
  cases p with
  | register v =>
    have hbyte := byte_of_eq (ε := Notice EncodeErrorKind) (z := 0xC0 + 8 * (reg.field.val : Int) + v.field.val)
      (n := 64 * 3 + 8 * reg.field.val + v.field.val) (by omega) (by omega)
    have hrm := field_erase (ε := Notice EncodeErrorKind) v
    simp only [LongMode.Operand.erase] at hrm
    simp only [Place.operand, LongMode.Operand.erase, hrm, hbyte, ok_bind]
    rfl
  | memory l => exact memoryModRm_eq reg.field l.address

private theorem selectsQword_eq (f : Form) :
    (f.width.bits == 64 && !f.qwordByDefault) = selectsQword f.width f.qwordByDefault := by
  cases f.width <;> rfl

theorem assemble_withModRm (f : Form) (reg : RegOperand) (p : Place) {opcode : List Int}
    (hop : opcode = f.opcode.map fun b => (b.toNat : Int)) :
    assemble i.erase { opcode, width := f.width.bits, rm := some p.operand.erase, reg := regRegister reg
                       digit := regDigit reg, immediate := f.immediate, qwordByDefault := f.qwordByDefault } =
      coded i (f.withModRm reg (.ofPlace p)) := by
  generalize hframe : ({ opcode, width := f.width.bits, rm := some p.operand.erase, reg := regRegister reg
                         digit := regDigit reg, immediate := f.immediate, qwordByDefault := f.qwordByDefault } :
    Frame) = frame
  have hreg : extension (regRegister reg) = (.ok reg.isExtended : Coding Bool) := by
    cases reg with
    | register v => exact extension_erase v
    | digit d => rfl
  have hviews : (([p.operand.erase] ++ (regRegister reg).toList ++ []).filter Operand.isRegister).mapM Operand.view =
      (.ok ((RmOperand.ofPlace p).views ++ reg.views) : Coding (List View)) := by
    cases reg with
    | register v => exact views_erase p [v]
    | digit d => exact views_erase p []
  have hrex : rexBytes i.erase frame = about i ((rexFor ⟨selectsQword f.width f.qwordByDefault, reg.isExtended,
      (RmOperand.ofPlace p).extensions.1, (RmOperand.ofPlace p).extensions.2⟩
      ((RmOperand.ofPlace p).views ++ reg.views)).map fun r => (r.map Rex.byte).toList) := by
    subst hframe
    exact rexBytes_eq hviews (selectsQword_eq f) hreg (extensions_erase p) rfl (Bool.or_false _)
  have hopcode : opcodeBytes frame = .ok f.opcode := by
    subst hframe hop
    exact bytes_toNat f.opcode
  have hmodRm : modRmBytes i.erase frame =
      about i (((modRm reg.field (.ofPlace p)).map some).map fun m => (m.map ModRm.bytes).getD []) := by
    subst hframe
    rw [modRmBytes_eq rfl rfl rfl]
    cases modRm reg.field (.ofPlace p) <;> rfl
  rw [assemble_eq (by subst hframe; rfl) hrex hopcode hmodRm]
  subst hframe
  unfold Form.withModRm
  cases modRm reg.field (.ofPlace p) <;> rfl

theorem assemble_opcodeRegister (f : Form) (v : View) {b : UInt8} {opcode : List Int} (hf : f.opcode = [b])
    (hb : b.toNat + 8 ≤ 256) (hop : opcode = [(b.toNat : Int)]) :
    assemble i.erase { opcode, width := f.width.bits, opcodeRegister := some (LongMode.Operand.register v).erase
                       immediate := f.immediate, qwordByDefault := f.qwordByDefault } =
      coded i (f.withOpcodeRegister v) := by
  generalize hframe : ({ opcode, width := f.width.bits, opcodeRegister := some (LongMode.Operand.register v).erase
                         immediate := f.immediate, qwordByDefault := f.qwordByDefault } : Frame) = frame
  have hviews : (([] ++ [] ++ [(LongMode.Operand.register v).erase]).filter Operand.isRegister).mapM Operand.view =
      (.ok [v] : Coding (List View)) := by
    rw [mapM_eq_ok]
    exact congrArg (fun x => [x]) (view_erase v)
  have hrex : rexBytes i.erase frame = about i ((rexFor ⟨selectsQword f.width f.qwordByDefault, false, false,
      v.isExtended⟩ [v]).map fun r => (r.map Rex.byte).toList) := by
    subst hframe
    exact rexBytes_eq hviews (selectsQword_eq f) rfl rfl (extension_erase v) (Bool.false_or _)
  have hlast : (byte ((b.toNat : Int) + v.field.val) : Coding UInt8) = .ok (b + UInt8.ofNat v.field.val) := by
    have hfield := v.field.isLt
    refine (byte_of_eq (n := b.toNat + v.field.val) (by simp) (by omega)).trans (congrArg Except.ok ?_)
    exact UInt8.toNat_inj.1 (by simp)
  have hopcode : opcodeBytes frame = .ok [b + UInt8.ofNat v.field.val] := by
    subst hframe hop
    have hfield := field_erase (ε := Notice EncodeErrorKind) v
    have hfirst : (bytes [(b.toNat : Int)].dropLast : Coding (List UInt8)) = .ok [] := rfl
    have hlast' : (last [(b.toNat : Int)] : Coding Int) = .ok (b.toNat : Int) := rfl
    simp only [opcodeBytes, hfirst, hlast', hfield, hlast, ok_bind]
    rfl
  rw [assemble_eq (m := .ok none) (by subst hframe; rfl) hrex hopcode (by subst hframe; rfl)]
  subst hframe
  unfold Form.withOpcodeRegister
  rw [hf]
  rfl

theorem assemble_implied (f : Form) {opcode : List Int} (hop : opcode = f.opcode.map fun b => (b.toNat : Int)) :
    assemble i.erase { opcode, width := f.width.bits, immediate := f.immediate, qwordByDefault := f.qwordByDefault } =
      coded i f.implied := by
  generalize hframe : ({ opcode, width := f.width.bits, immediate := f.immediate
                         qwordByDefault := f.qwordByDefault } : Frame) = frame
  have hrex : rexBytes i.erase frame = about i ((rexFor ⟨selectsQword f.width f.qwordByDefault, false, false,
      false⟩ []).map fun r => (r.map Rex.byte).toList) := by
    subst hframe
    exact rexBytes_eq rfl (selectsQword_eq f) rfl rfl rfl rfl
  have hopcode : opcodeBytes frame = .ok f.opcode := by
    subst hframe hop
    exact bytes_toNat f.opcode
  rw [assemble_eq (m := .ok none) (by subst hframe; rfl) hrex hopcode (by subst hframe; rfl)]
  subst hframe
  rfl

end Untyped

end LongMode
