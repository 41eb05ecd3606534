/-
SensorScript.Proofs.Image.Bytes — an image is read back from its byte form.

  §1 readers: `Reads read bytes a` says that a reader takes exactly `bytes`
     off the front of any buffer and gives `a`; readers in sequence read
     byte forms in sequence;
  §2 the parts of an image and `ofBytes_toBytes`.

The counts and the lengths of names are written in 32 bits, so the byte form
only carries an image whose counts and lengths are below `UInt32.size`.
-/
import SensorScript.Image
import SensorScript.Proofs.Text.Utf8

namespace SensorScript.Image

/-! ## §1 Readers -/

/-- The reader takes `bytes` off the front of any buffer and gives `a`. -/
def Reads {α : Type} (read : Reader α) (bytes : Bytes) (a : α) : Prop :=
  ∀ position rest, read ⟨position, bytes ++ rest⟩ = .ok (a, ⟨position + bytes.length, rest⟩)

/-- What follows a reader goes on behind the bytes it took. -/
theorem Reads.step {α β : Type} {read : Reader α} {bytes : Bytes} {a : α}
    (h : Reads read bytes a) (position : Nat) (rest : Bytes)
    (next : α × Cursor → Except ImageError β) :
    (read ⟨position, bytes ++ rest⟩ >>= next) = next (a, ⟨position + bytes.length, rest⟩) := by
  rw [h position rest]
  rfl

theorem readMany_reads {α : Type} {read : Reader α} {write : α → Bytes} (as : List α)
    (h : ∀ a ∈ as, Reads read (write a) a) :
    Reads (readMany read as.length) (as.flatMap write) as := by
  induction as with
  | nil => intro position rest; rfl
  | cons a as ih =>
    intro position rest
    have ha : Reads read (write a) a := h a List.mem_cons_self
    have has := ih fun b hb => h b (List.mem_cons_of_mem a hb)
    simp only [List.flatMap_cons, List.append_assoc, List.length_cons, readMany, ha.step, has.step]
    rw [List.length_append, ← Nat.add_assoc]
    rfl

@[simp] theorem length_word32 (n : UInt32) : (word32 n).length = 4 := rfl

theorem number32_word32 (n : UInt32) : number32 (word32 n) = n := by
  have hn := n.toNat_lt
  simp only [number32, word32, UInt8.toNat_ofNat']
  rw [show n.toNat % 2 ^ 8 + n.toNat / 0x100 % 2 ^ 8 * 0x100 +
    n.toNat / 0x10000 % 2 ^ 8 * 0x10000 + n.toNat / 0x1000000 % 2 ^ 8 * 0x1000000 = n.toNat by omega]
  exact UInt32.ofNat_toNat

theorem take_reads (bytes : Bytes) : Reads (take bytes.length) bytes bytes := by
  intro position rest
  simp only [take, List.take_left, List.drop_left, if_true]

theorem readNumber_reads (n : UInt32) : Reads readNumber (word32 n) n := by
  intro position rest
  have h := take_reads (word32 n)
  rw [length_word32] at h
  rw [readNumber, h.step]
  show Except.ok (number32 (word32 n), _) = _
  rw [number32_word32]

/-! ## §2 Images -/

theorem readWord_reads (w : MachineWord) : Reads readWord (wordBytes w) w := by
  intro position rest
  simp only [readWord, wordBytes, List.append_assoc, (readNumber_reads _).step]
  rfl

theorem readFunction_reads (f : ImageFunction) (h : Utf8.size f.name < UInt32.size) :
    Reads readFunction (functionBytes f) f := by
  intro position rest
  have hlen : (UInt32.ofNat (Utf8.encode f.name).length).toNat = (Utf8.encode f.name).length :=
    UInt32.toNat_ofNat_of_lt' h
  simp only [readFunction, functionBytes, List.append_assoc, (readNumber_reads _).step, hlen,
    (take_reads _).step, Utf8.decode_encode]
  simp only [List.length_append, length_word32, Nat.add_assoc]
  rfl

/-- An image whose counts and name lengths fit 32 bits is read from its byte form, and
what follows it is judged after that. -/
theorem ofBytes_toBytes_append (image : Image) (hw : image.words.length < UInt32.size)
    (hf : image.functions.length < UInt32.size)
    (hn : ∀ f ∈ image.functions, Utf8.size f.name < UInt32.size) (tail : Bytes) :
    ofBytes (image.toBytes ++ tail) =
      if tail = [] then .ok image else .error (.trailingBytes tail.length) := by
  have hwords := readMany_reads image.words fun w _ => readWord_reads w
  have hfunctions := readMany_reads image.functions fun f hm => readFunction_reads f (hn f hm)
  rw [← UInt32.toNat_ofNat_of_lt' hw] at hwords
  rw [← UInt32.toNat_ofNat_of_lt' hf] at hfunctions
  have hstart : image.toBytes ++ tail =
      word32 magic ++ (word32 (UInt32.ofNat image.words.length) ++
        (word32 (UInt32.ofNat image.functions.length) ++ (image.words.flatMap wordBytes ++
          (image.functions.flatMap functionBytes ++ tail)))) := by
    simp only [toBytes, List.append_assoc]
  simp only [ofBytes, hstart, (readNumber_reads _).step, hwords.step, hfunctions.step]
  rfl

/-- Such an image is read back from its byte form. -/
theorem ofBytes_toBytes (image : Image) (hw : image.words.length < UInt32.size)
    (hf : image.functions.length < UInt32.size)
    (hn : ∀ f ∈ image.functions, Utf8.size f.name < UInt32.size) :
    ofBytes image.toBytes = .ok image := by
  have h := ofBytes_toBytes_append image hw hf hn []
  rwa [List.append_nil, if_pos rfl] at h

end SensorScript.Image
