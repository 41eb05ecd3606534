/-
SensorScript.Proofs.CommandLine.Listing — what an annotated listing shows.

A listing goes through the instructions, and each of them brings the functions
that start at it and the labels of its own function that point to it. Functions
and labels are in the order of their indices, so what is brought at each index
makes up the tables again, as far as there are instructions: a function without
an instruction at or after its start, and a label that no instruction of its
function follows, are in no line.

  §1 the tables of a script are in order;
  §2 what a line shows;
  §3 what a walk over the instructions shows;
  §4 listings of assembled sources;
  §5 what `build` prints.
-/
import SensorScript.Proofs.CommandLine.Loads
import SensorScript.Proofs.List
import SensorScript.Proofs.Program.Attempt
import SensorScript.Proofs.Program.Stages

namespace SensorScript

/-! ## §1 The tables of a script are in order -/

namespace Item

theorem bounds_of_mem_labels {owner index : Nat} {items : List Item} {l : Label}
    (h : l ∈ labels owner index items) : index ≤ l.index ∧ l.index ≤ index + count items := by
  induction items generalizing index with
  | nil => cases h
  | cons item items ih =>
    cases item with
    | label name =>
      rw [count_label]
      obtain rfl | h := List.mem_cons.mp h
      · exact ⟨Nat.le_refl _, Nat.le_add_right _ _⟩
      · exact ih h
    | instruction line operation =>
      rw [count_instruction]
      have hbounds := ih h
      omega

theorem labels_ordered (owner index : Nat) (items : List Item) :
    (labels owner index items).Pairwise fun l m => l.index ≤ m.index := by
  induction items generalizing index with
  | nil => exact .nil
  | cons item items ih =>
    cases item with
    | label name => exact .cons (fun m hm => (bounds_of_mem_labels hm).1) (ih index)
    | instruction line operation => exact ih (index + 1)

end Item

namespace Script

theorem le_of_mem_labels {owner index : Nat} {script : Script} {l : Label}
    (h : l ∈ labels owner index script) : index ≤ l.index := by
  induction script generalizing owner index with
  | nil => cases h
  | cons b script ih =>
    obtain h | h := List.mem_append.mp h
    · exact (Item.bounds_of_mem_labels h).1
    · exact Nat.le_trans (Nat.le_add_right _ _) (ih h)

theorem labels_ordered (owner index : Nat) (script : Script) :
    (labels owner index script).Pairwise fun l m => l.index ≤ m.index := by
  induction script generalizing owner index with
  | nil => exact .nil
  | cons b script ih =>
    refine List.pairwise_append.mpr ⟨Item.labels_ordered _ _ _, ih _ _, fun l hl m hm => ?_⟩
    exact Nat.le_trans (Item.bounds_of_mem_labels hl).2 (le_of_mem_labels hm)

theorem le_of_mem_functions {index : Nat} {script : Script} {f : FunctionSpan}
    (h : f ∈ functions index script) : index ≤ f.start := by
  induction script generalizing index with
  | nil => cases h
  | cons b script ih =>
    obtain rfl | h := List.mem_cons.mp h
    · exact Nat.le_refl _
    · exact Nat.le_trans (Nat.le_add_right _ _) (ih h)

theorem functions_ordered (index : Nat) (script : Script) :
    (functions index script).Pairwise fun f g => f.start ≤ g.start := by
  induction script generalizing index with
  | nil => exact .nil
  | cons b script ih =>
    exact .cons (fun g hg => Nat.le_trans (Nat.le_add_right _ _) (le_of_mem_functions hg)) (ih _)

end Script

/-! ## §2 What a line shows -/

namespace ListingLine

/-- The function that the line is the header of. -/
def function? : ListingLine → Option FunctionSpan
  | .function f => some f
  | _ => none

/-- The label that the line shows. -/
def label? : ListingLine → Option Label
  | .label l => some l
  | _ => none

/-- The instruction that the line shows, with its index and its word. -/
def instruction? : ListingLine → Option (Nat × Instruction × MachineWord)
  | .instruction index i w => some (index, i, w)
  | _ => none

/-- The index at which the line has its place. -/
def index : ListingLine → Nat
  | .function f => f.start
  | .label l => l.index
  | .instruction index _ _ => index

variable {symbols : SymbolTable} {k : Nat} {i : Instruction} {w : MachineWord}

/-! The lines that belong to one instruction. -/

@[simp] theorem filterMap_function?_around :
    (around symbols k i w).filterMap function? =
      symbols.functions.items.filter fun f => f.start = k := by
  simp [around, List.filterMap_map, Function.comp_def, function?]

@[simp] theorem filterMap_label?_around :
    (around symbols k i w).filterMap label? =
      symbols.labels.items.filter fun l => l.index = k ∧ l.owner = i.owner := by
  simp [around, List.filterMap_map, Function.comp_def, label?]

@[simp] theorem filterMap_instruction?_around :
    (around symbols k i w).filterMap instruction? = [(k, i, w)] := by
  simp [around, List.filterMap_map, Function.comp_def, instruction?]

/-! ## §3 What a walk over the instructions shows -/

theorem filterMap_function?_listFrom
    (hf : symbols.functions.items.Pairwise fun f g => f.start ≤ g.start) (k : Nat)
    (rest : List (Instruction × MachineWord)) :
    (listFrom symbols k rest).filterMap function? =
      symbols.functions.items.filter fun f => k ≤ f.start ∧ f.start < k + rest.length := by
  induction rest generalizing k with
  | nil => simp [listFrom]
  | cons row rest ih =>
    rw [← filter_append_filter hf k _ (by simp; omega), listFrom, List.filterMap_append, ih,
      filterMap_function?_around]
    congr 1
    · refine List.filter_congr fun f _ => ?_
      by_cases hk : f.start = k <;> simp [hk]
    · refine List.filter_congr fun f _ => ?_
      rw [Bool.eq_iff_iff]
      simp only [Bool.and_eq_true, decide_eq_true_eq, List.length_cons]
      omega

theorem filterMap_label?_listFrom
    (hl : symbols.labels.items.Pairwise fun l m => l.index ≤ m.index) (k : Nat)
    (rest : List (Instruction × MachineWord)) :
    (listFrom symbols k rest).filterMap label? =
      symbols.labels.items.filter fun l =>
        k ≤ l.index ∧ (rest[l.index - k]?).any fun row => l.owner = row.1.owner := by
  induction rest generalizing k with
  | nil => simp [listFrom]
  | cons row rest ih =>
    rw [← filter_append_filter hl k _ (by simp; omega), listFrom, List.filterMap_append, ih,
      filterMap_label?_around]
    congr 1
    · refine List.filter_congr fun l _ => ?_
      by_cases hk : l.index = k <;> simp [hk]
    · refine List.filter_congr fun l _ => ?_
      by_cases hk : k < l.index
      · have hsub : l.index - k = l.index - (k + 1) + 1 := by omega
        simp [hk, hsub, Nat.le_of_lt hk, Nat.succ_le_of_lt hk]
      · have hk' : ¬ k + 1 ≤ l.index := hk
        simp [hk, hk']

theorem filterMap_instruction?_listFrom (k : Nat) (rest : List (Instruction × MachineWord)) :
    (listFrom symbols k rest).filterMap instruction? =
      rest.mapIdx fun j row => (k + j, row.1, row.2) := by
  induction rest generalizing k with
  | nil => rfl
  | cons row rest ih =>
    rw [listFrom, List.filterMap_append, ih, filterMap_instruction?_around, List.mapIdx_cons]
    simp [Nat.add_assoc, Nat.add_comm 1]

/-- The lines stand where their indices are reached: before each of them there are as many
instructions, counted from `k` on, as its index says. -/
def Placed : Nat → List ListingLine → Prop
  | _, [] => True
  | k, line :: lines => line.index = k ∧ Placed (k + line.instruction?.toList.length) lines

theorem placed_append {xs ys : List ListingLine} :
    Placed k (xs ++ ys) ↔ Placed k xs ∧ Placed (k + (xs.filterMap instruction?).length) ys := by
  induction xs generalizing k with
  | nil => simp [Placed]
  | cons x xs ih =>
    cases x <;>
      simp [Placed, ih, List.filterMap_cons, instruction?, and_assoc, Nat.add_assoc, Nat.add_comm 1]

/-- Lines of one index, none of which shows an instruction. -/
theorem placed_of_forall {xs : List ListingLine}
    (h : ∀ x ∈ xs, x.instruction? = none ∧ x.index = k) : Placed k xs := by
  induction xs with
  | nil => trivial
  | cons x xs ih =>
    obtain ⟨⟨hnone, hindex⟩, hxs⟩ := List.forall_mem_cons.mp h
    exact ⟨hindex, by simpa [hnone] using ih hxs⟩

theorem placed_around : Placed k (around symbols k i w) := by
  refine placed_append.mpr ⟨placed_of_forall fun x hx => ?_, ?_⟩
  · simp only [List.mem_append, List.mem_map, List.mem_filter, decide_eq_true_eq] at hx
    obtain ⟨f, ⟨_, hf⟩, rfl⟩ | ⟨l, ⟨_, hl, _⟩, rfl⟩ := hx
    · exact ⟨rfl, hf⟩
    · exact ⟨rfl, hl⟩
  · simp [Placed, List.filterMap_map, Function.comp_def, instruction?, index]

theorem placed_listFrom (k : Nat) (rest : List (Instruction × MachineWord)) :
    Placed k (listFrom symbols k rest) := by
  induction rest generalizing k with
  | nil => trivial
  | cons row rest ih => exact placed_append.mpr ⟨placed_around, by simpa using ih (k + 1)⟩

/-- In front of a line there are as many instructions as its index says. -/
theorem length_before {before after : List ListingLine} {line : ListingLine}
    {rest : List (Instruction × MachineWord)}
    (h : listFrom symbols 0 rest = before ++ line :: after) :
    (before.filterMap instruction?).length = line.index := by
  have hplaced : Placed 0 (listFrom symbols 0 rest) := placed_listFrom 0 rest
  rw [h, placed_append, Nat.zero_add] at hplaced
  exact hplaced.2.1.symm

end ListingLine

/-! ## §4 Listings of assembled sources -/

/-- An instruction of the label's own function follows the label. -/
def SymbolTable.isFollowed (symbols : SymbolTable) (l : Label) : Bool :=
  (symbols.functions.get? l.owner).any fun f => l.index < f.stop

/-- A label is followed exactly when the instruction it points to is one of its function. -/
theorem Draft.Sound.isFollowed_eq {limits : Limits} {d : Draft} (hd : d.Sound limits)
    (hcur : d.current = none) {l : Label} (hl : l ∈ d.symbols.labels.items) :
    d.symbols.isFollowed l = (d.instructions.get? l.index).any fun x => l.owner = x.owner := by
  obtain ⟨f, hf, hstart, _, _⟩ := hd.label_owner l hl
  rw [SymbolTable.isFollowed, hf, Bool.eq_iff_iff]
  cases hx : d.instructions.get? l.index with
  | none =>
    have hsize : d.instructions.size ≤ l.index := List.getElem?_eq_none_iff.mp hx
    have hstop := (hd.ordered _ f hf).2
    simp only [Option.any_some, Option.any_none, decide_eq_true_eq, Bool.false_eq_true, iff_false]
    omega
  | some x =>
    have hspan := hd.owner_unique hcur hx hf
    simp [← hspan, hstart]

namespace Program

variable {limits : Limits} {source : Bytes} {p : Program} {image : Image}

/-- An assembled program has sound tables and no open function. -/
theorem sound_of_assembleProgram (h : assembleProgram source limits = .ok (p, image)) :
    p.draft.Sound limits ∧ p.draft.current = none := by
  obtain ⟨p₀, _, hcheck, _, hp, _⟩ := assembleProgram_eq_ok h
  obtain ⟨_, d, d', n, hread, hlink, rfl⟩ := check_eq_ok_iff.mp hcheck
  have hempty := Draft.Sound.empty limits
  have hsound := (hempty.readSource hread).link
  have hclosed := hempty.current_of_readSource hread
  have hcur : d.link.1.current = none := hclosed
  rw [hlink] at hsound hcur
  rw [hp]
  exact ⟨hsound, hcur⟩

/-- There are as many words as instructions. -/
theorem length_words (h : assembleProgram source limits = .ok (p, image)) :
    image.words.length = p.draft.instructions.size := by
  obtain ⟨_, script, hcompiled, _⟩ := compiled_of_assembleProgram h
  exact hcompiled.words.length_eq.symm

/-- A listing has a header for every function that starts at an instruction, a line for every
label that an instruction of its function follows, and a line for every instruction, each of
them once and in the order of the tables. -/
theorem shown_in_list (h : assembleProgram source limits = .ok (p, image)) :
    let lines := ListingLine.list p image
    lines.filterMap ListingLine.function? =
        (p.draft.symbols.functions.items.filter fun f => f.start < p.draft.instructions.size) ∧
      lines.filterMap ListingLine.label? =
        p.draft.symbols.labels.items.filter p.draft.symbols.isFollowed ∧
      lines.filterMap ListingLine.instruction? =
        (p.draft.instructions.items.zip image.words).mapIdx fun j row => (j, row.1, row.2) := by
  intro lines
  obtain ⟨hsound, hcur⟩ := sound_of_assembleProgram h
  obtain ⟨_, script, hcompiled, _⟩ := compiled_of_assembleProgram h
  have hlength : p.draft.instructions.items.length = image.words.length := (length_words h).symm
  have hfunctions := hcompiled.functions ▸ Script.functions_ordered 0 script
  have hlabels := hcompiled.labels ▸ Script.labels_ordered 0 0 script
  refine ⟨?functions, ?labels, ?instructions⟩
  case functions =>
    show (ListingLine.listFrom _ 0 _).filterMap _ = _
    have hrows : (p.draft.instructions.items.zip image.words).length =
        p.draft.instructions.size := by
      rw [List.length_zip, ← hlength, Nat.min_self, Table.size]
    rw [ListingLine.filterMap_function?_listFrom hfunctions, hrows]
    simp
  case labels =>
    show (ListingLine.listFrom _ 0 _).filterMap _ = _
    rw [ListingLine.filterMap_label?_listFrom hlabels]
    refine List.filter_congr fun l hl => ?_
    -- The rows of the listing are those of the instructions, with a word beside each.
    have hrow : ((p.draft.instructions.items.zip image.words)[l.index]?).map Prod.fst =
        p.draft.instructions.items[l.index]? := by
      rw [← List.getElem?_map, List.map_fst_zip (Nat.le_of_eq hlength)]
    rw [hsound.isFollowed_eq hcur hl, Table.get?, ← hrow, Option.any_map]
    simp
  case instructions =>
    show (ListingLine.listFrom _ 0 _).filterMap _ = _
    rw [ListingLine.filterMap_instruction?_listFrom]
    simp

end Program

/-! ## §5 What `build` prints -/

namespace Command

variable {o : BuildOptions} {f : Folder} {limits : Limits} {source : Bytes}

/-- A build of a source that is assembled prints what it does, the listing, and where the image
went. -/
theorem stdout_buildTask {p : Program} {image : Image} (color : Bool) (hlisting : o.listing = true)
    (hloads : o.Loads f limits source)
    (h : Attempt.assembleProgram source limits = .ok (.ok (p, image))) :
    ((buildTask color o).run f).stdout =
      Task.printed (heading color o image ++ (ListingLine.list p image).map (·.text color)) ++
        ((writeImage color (outputPath o) (render image o.format)).run f).stdout := by
  have heffect := effect_of_assembled color hloads h
  rw [if_pos hlisting] at heffect
  exact congrArg Task.Effect.stdout heffect

/-- A build that is asked for a listing, of a source that is assembled, prints its listing:

* there is a header for every function that starts at an instruction, and a line for every label
  that an instruction of its function follows, each of them once and in the order of the tables;
* there is a line for every instruction, in order;
* in front of every line there are as many instructions as its index says. -/
theorem listing_of_build {p : Program} {image : Image} (color : Bool) (hlisting : o.listing = true)
    (hloads : o.Loads f limits source)
    (h : Attempt.assembleProgram source limits = .ok (.ok (p, image))) :
    let symbols := p.draft.symbols
    let lines := ListingLine.list p image
    ((buildTask color o).run f).stdout =
      Task.printed (heading color o image ++ lines.map (·.text color)) ++
        ((writeImage color (outputPath o) (render image o.format)).run f).stdout ∧
    lines.filterMap ListingLine.function? =
      (symbols.functions.items.filter fun f => f.start < p.draft.instructions.size) ∧
    lines.filterMap ListingLine.label? = symbols.labels.items.filter symbols.isFollowed ∧
    image.words.length = p.draft.instructions.size ∧
    lines.filterMap ListingLine.instruction? =
      (p.draft.instructions.items.zip image.words).mapIdx (fun j row => (j, row.1, row.2)) ∧
    ∀ before line after, lines = before ++ line :: after →
      (before.filterMap ListingLine.instruction?).length = line.index := by
  intro symbols lines
  have hassembled := Attempt.assembleProgram_of_returns h
  obtain ⟨hfunctions, hlabels, hinstructions⟩ := Program.shown_in_list hassembled
  exact ⟨stdout_buildTask color hlisting hloads h, hfunctions, hlabels,
    Program.length_words hassembled,
    hinstructions, fun _ _ _ => ListingLine.length_before⟩

/-- A label in front of the instruction, and after it a label and a function without one. -/
theorem listing_of_open_end :
    let source := Utf8.encode
      ".function f\nL:\nSHL R0 $1\nEND:\n.endfunction\n.function g\n.endfunction\n".toList
    let o : BuildOptions := { source := ['s'], listing := true }
    let f : Folder := ⟨[([['s']], source)]⟩
    ∃ p image, o.listing = true ∧ o.Loads f {} source ∧
      Attempt.assembleProgram source {} = .ok (.ok (p, image)) ∧
      ((ListingLine.list p image).filterMap ListingLine.function?).map (·.name) = [['f']] ∧
      ((ListingLine.list p image).filterMap ListingLine.label?).map (·.name) = [['L']] := by
  intro source o f
  have htables : (assembleProgram source {}).toOption.map (fun (p, _) =>
      ((p.draft.symbols.functions.items.filter fun f => f.start < p.draft.instructions.size).map
          (·.name),
        (p.draft.symbols.labels.items.filter p.draft.symbols.isFollowed).map (·.name))) =
      some ([['f']], [['L']]) := by
    decide +kernel
  obtain ⟨⟨p, image⟩, himage, heq⟩ := Option.map_eq_some_iff.mp htables
  have h : Attempt.assembleProgram source {} = .ok (.ok (p, image)) := by
    rw [Attempt.assembleProgram_of_room (by decide), toOption_eq_some_iff.mp himage]
  have hloads : o.Loads f {} source := ⟨.inl ⟨rfl, rfl⟩, by decide +kernel⟩
  obtain ⟨_, hfunctions, hlabels, _⟩ := listing_of_build false rfl hloads h
  obtain ⟨hf, hl⟩ := Prod.mk.inj heq
  exact ⟨p, image, rfl, hloads, h, hfunctions ▸ hf, hlabels ▸ hl⟩

/-- A label at the end of a function and a function without an instruction are in the tables of
the program, and in no line of its listing. -/
theorem unlisted_at_the_end :
    let source := Utf8.encode
      ".function f\nSHL R0 $1\nEND:\n.endfunction\n.function g\n.endfunction\n".toList
    let o : BuildOptions := { source := ['s'], listing := true }
    let f : Folder := ⟨[([['s']], source)]⟩
    ∃ p image, assembleProgram source {} = .ok (p, image) ∧
      (∃ l ∈ p.draft.symbols.labels.items, ListingLine.label l ∉ ListingLine.list p image) ∧
      (∃ g ∈ p.draft.symbols.functions.items,
        ListingLine.function g ∉ ListingLine.list p image) ∧
      ((buildTask false o).run f).stdout =
        Task.printed (heading false o image ++ (ListingLine.list p image).map (·.text false)) ++
          ((writeImage false (outputPath o) (render image o.format)).run f).stdout := by
  intro source o f
  have hlisted : (assembleProgram source {}).toOption.map (fun (p, image) =>
      (decide (∃ l ∈ p.draft.symbols.labels.items, ListingLine.label l ∉ ListingLine.list p image),
        decide (∃ g ∈ p.draft.symbols.functions.items,
          ListingLine.function g ∉ ListingLine.list p image))) = some (true, true) := by
    decide +kernel
  obtain ⟨⟨p, image⟩, himage, heq⟩ := Option.map_eq_some_iff.mp hlisted
  obtain ⟨hlabel, hfunction⟩ := Prod.mk.inj heq
  have h := toOption_eq_some_iff.mp himage
  have hloads : o.Loads f {} source := ⟨.inl ⟨rfl, rfl⟩, by decide +kernel⟩
  exact ⟨p, image, h, of_decide_eq_true hlabel, of_decide_eq_true hfunction,
    stdout_buildTask false rfl hloads (by rw [Attempt.assembleProgram_of_room (by decide), h])⟩

end Command

end SensorScript
