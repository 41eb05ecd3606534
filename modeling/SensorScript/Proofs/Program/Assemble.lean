/-
SensorScript.Proofs.Program.Assemble — an image says what its source says.

The stages are put together: a source that is assembled is one of a script,
its tables are those of the script, linking looks every name up in them and
decoding gives back what was linked. What is left of a reference in a machine
word is an index, and `Script.Refers` says which one, on the script alone.
-/
import SensorScript.Proofs.Image.Bytes
import SensorScript.Proofs.MachineWord.RoundTrip
import SensorScript.Proofs.Program.Check
import SensorScript.Proofs.Script.Lookup
import SensorScript.Proofs.Script.Size

namespace SensorScript

/-! ## §1 References -/

namespace Script

variable {limits : Limits} {script : Script} {owner : Nat}

/-- What an operand in the function `owner` of a script is decoded to. -/
inductive Refers (script : Script) (owner : Nat) : Operand → Operand → Prop
  | value {o} (h : o.symbol? = none) : Refers script owner o o
  | label {s index} (place : LabelAt script owner s.name index) (small : index < UInt32.size) :
      Refers script owner (.label s) (.label (.ofIndex index))
  | function {s index} (place : FunctionAt script s.name index) (small : index < UInt32.size) :
      Refers script owner (.function s) (.function (.ofIndex index))

/-- An operand is linked and decoded to what it refers to in the script. -/
theorem refers_of_resolves {d : Draft} (hd : Fills script d)
    (hsize : count script + script.length < UInt32.size) {o o' : Operand}
    (h : Link.Resolves d.symbols owner o o') : Refers script owner o o'.decoded := by
  cases h with
  | value h =>
    have hdecoded : o.decoded = o := by
      cases o with
      | label s => cases h
      | function s => cases h
      | _ => rfl
    rw [hdecoded]
    exact .value h
  | @label s label found =>
    have hat : LabelAt script owner s.name label.index := by
      unfold SymbolTable.findLabel? at found
      rw [hd.labels] at found
      exact labelAt_of_find? found
    have hsmall : label.index < UInt32.size := by
      have := hat.le_count
      omega
    have hdecoded := UInt32.toNat_ofNat_of_lt' hsmall
    show Refers script owner (.label s) (.label (.ofIndex (UInt32.ofNat label.index).toNat))
    rw [hdecoded]
    exact .label hat hsmall
  | @function s i found =>
    have hat : FunctionAt script s.name i := by
      unfold SymbolTable.findFunction? at found
      rw [hd.functions] at found
      exact findIdx?_functions_iff.mp found
    have hsmall : i < UInt32.size := by
      have := hat.lt_length
      omega
    have hdecoded := UInt32.toNat_ofNat_of_lt' hsmall
    show Refers script owner (.function s) (.function (.ofIndex (UInt32.ofNat i).toNat))
    rw [hdecoded]
    exact .function hat hsmall

end Script

/-! ## §2 Images -/

theorem Image.function?_ofWords (words : List MachineWord) (spans : List FunctionSpan)
    (name : Text) : (Image.ofWords words spans).function? name =
      spans.findIdx? fun f => f.name = name := by
  unfold function? ofWords
  rw [List.findIdx?_map]
  rfl

namespace Program

variable {limits : Limits} {source : Bytes} {p : Program} {image : Image}

/-- The steps of a source that is assembled. -/
theorem assembleProgram_eq_ok (h : assembleProgram source limits = .ok (p, image)) :
    ∃ p₀ words, check source limits = .ok p₀ ∧
      encodeAll p₀.draft.instructions.items = .ok words ∧ p.draft = p₀.draft ∧
      image = .ofWords words p₀.draft.symbols.functions.items := by
  obtain ⟨p₀, hcheck, h⟩ := bind_eq_ok_iff.mp h
  have hstage : p₀.stage = .linked := by
    obtain ⟨_, _, _, _, _, _, rfl⟩ := check_eq_ok_iff.mp hcheck
    rfl
  simp only [encode, inStage, Call.stage, hstage, if_true] at h
  cases hall : encodeAll p₀.draft.instructions.items with
  | ok words =>
    rw [hall] at h
    cases h
    exact ⟨p₀, words, hcheck, hall, rfl, rfl⟩
  | error e =>
    rw [hall] at h
    cases h

/-- An image that a source is assembled to is read back from its bytes. It has
one word for every instruction, which is decoded to the instruction of the
script with every value unchanged and every reference replaced by the index of
the first label or function it names. -/
theorem assembled_image (h : assembleProgram source limits = .ok (p, image))
    (hsource : source.length < UInt32.size) :
    Image.ofBytes image.toBytes = .ok image ∧
    List.Forall₂ (fun x w => x.operation.encode = .ok w) p.draft.instructions.items image.words ∧
    ∃ script, Script.OfSource limits source script ∧
      List.Forall₂
        (fun x w => ∃ operands, w.decode = .ok ⟨x.operation.opcode, operands⟩ ∧
          List.Forall₂ (Script.Refers script x.owner) x.operation.operands operands)
        (Script.instructions 0 script) image.words ∧
      ∀ name index, Script.FunctionAt script name index ↔ image.function? name = some index := by
  obtain ⟨p₀, words, hcheck, hall, hp, rfl⟩ := assembleProgram_eq_ok h
  obtain ⟨_, d, d', n, hread, hlink, rfl⟩ := check_eq_ok_iff.mp hcheck
  obtain ⟨script, hscript, hextends⟩ := Script.readSource_empty_iff.mp hread
  have hfills := Script.fills_of_extends hextends
  obtain ⟨hcount, hnames⟩ := Script.size_le_of_source hscript
  have hsound := (Draft.Sound.empty limits).readSource hread
  obtain ⟨hsymbols, hlinks⟩ := hsound.links hfills.current_eq hlink
  have hwords : List.Forall₂ (fun x w => x.operation.encode = .ok w) d'.instructions.items words :=
    List.forall₂_map_left_iff.mp (encodeFrom_eq_ok_iff.mp hall)
  rw [hfills.instructions] at hlinks
  rw [hp]
  refine ⟨?_, hwords, script, hscript, ?_, ?_⟩
  · refine Image.ofBytes_toBytes _ ?_ ?_ ?_
    · show words.length < _
      have hlength := hlinks.length_eq.trans hwords.length_eq
      rw [Script.length_instructions] at hlength
      omega
    · show (d'.symbols.functions.items.map _).length < _
      rw [hsymbols, hfills.functions, List.length_map, Script.length_functions]
      omega
    · intro f hf
      obtain ⟨span, hspan, rfl⟩ := List.mem_map.mp hf
      rw [hsymbols, hfills.functions] at hspan
      have hname : span.name ∈ (Script.functions 0 script).map fun g => g.name :=
        List.mem_map_of_mem hspan
      rw [Script.map_name_functions] at hname
      obtain ⟨b, hb, hname⟩ := List.mem_map.mp hname
      show Utf8.size span.name < _
      rw [← hname]
      exact Nat.lt_of_le_of_lt (hnames b hb) hsource
  · refine (forall₂_comp hlinks hwords).imp fun x w ⟨y, hxy, hy⟩ => ?_
    refine ⟨y.operation.operands.map Operand.decoded, ?_, ?_⟩
    · rw [← hxy.opcode_eq]
      exact decode_of_encode hy
    · rw [List.forall₂_map_right_iff]
      exact hxy.operands.imp fun o o' ho =>
        Script.refers_of_resolves hfills (Nat.lt_of_le_of_lt hcount hsource) ho
  · intro name index
    rw [Image.function?_ofWords, hsymbols, hfills.functions]
    exact Script.findIdx?_functions_iff.symm

/-- A call forward and a jump to the first of two labels: the image is read
back, and both references are decoded to indices of the script. -/
theorem assembled_image_of_call :
    let source := Utf8.encode
      ".function f\nL:\nL:\nCALL @g\nJNZ R1 @L\n.endfunction\n.function g\n.endfunction".toList
    ∃ p image, assembleProgram source {} = .ok (p, image) ∧
      Image.ofBytes image.toBytes = .ok image ∧
      image.words.map (fun w => w.decode.toOption.map (·.operands)) =
        [some [.function (.ofIndex 1)], some [.register 1, .label (.ofIndex 0)]] ∧
      ∃ script, Script.OfSource {} source script ∧ Script.FunctionAt script ['g'] 1 := by
  intro source
  have hwords : (assembleProgram source {}).toOption.map
      (fun (_, image) => (image.words.map fun w => w.decode.toOption.map (·.operands),
        image.function? ['g'])) =
      some ([some [.function (.ofIndex 1)], some [.register 1, .label (.ofIndex 0)]], some 1) := by
    decide +kernel
  obtain ⟨⟨p, image⟩, himage, heq⟩ := Option.map_eq_some_iff.mp hwords
  have h := toOption_eq_some_iff.mp himage
  obtain ⟨hbytes, _, script, hscript, _, hfunction⟩ := assembled_image h (by decide +kernel)
  obtain ⟨hdecode, hg⟩ := Prod.mk.inj heq
  exact ⟨p, image, h, hbytes, hdecode, script, hscript, (hfunction _ _).mpr hg⟩

end Program

end SensorScript
