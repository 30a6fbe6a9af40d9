import LintBridge.Text.Encoding
/-!
Replacements of a range of a text, and their application to a text. Offsets are 32-bit words; in
which units they count depends on who wrote them: an engine counts UTF-16 code units, and
`toByteOffsets` turns its replacements into ones that count bytes.
-/
namespace LintBridge

/-- An atomic edit: `length` units from `start` become `text`. -/
structure Replacement where
  start : UInt32
  length : UInt32
  text : String
deriving DecidableEq, Inhabited

namespace Replacement

/-- The offset after the replaced range, at most the largest word. -/
def stop (r : Replacement) : UInt32 :=
  UInt32.ofNat (min (r.start.toNat + r.length.toNat) (UInt32.size - 1))

theorem toNat_stop (r : Replacement) :
    r.stop.toNat = min (r.start.toNat + r.length.toNat) (UInt32.size - 1) := by
  have := r.start.toNat_lt
  simp only [stop, UInt32.toNat_ofNat', UInt32.size]
  omega

theorem start_le_stop (r : Replacement) : r.start.toNat ≤ r.stop.toNat := by
  have := r.start.toNat_lt
  rw [toNat_stop, UInt32.size]
  omega

def applyTo? (width : Char → Nat) (r : Replacement) (text : List Char) : Option (List Char) :=
  Text.splice? width r.start.toNat r.stop.toNat r.text.toList text

end Replacement

/-- Replacements from the last start to the first; those with one start keep their order. -/
def fromTheEnd (replacements : List Replacement) : List Replacement :=
  replacements.mergeSort fun a b => b.start ≤ a.start

structure Applied where
  count : Nat
  content : List Char

/-- Makes one replacement, or leaves the text if its range is not in it. -/
def Applied.step (done : Applied) (r : Replacement) : Applied :=
  match r.applyTo? Text.byteWidth done.content with
  | some content => ⟨done.count + 1, content⟩
  | none => done

/-- Applies replacements with byte offsets from the end of a text to its beginning, so that offsets
still to come stay valid. -/
def applyReplacements (content : String) (replacements : List Replacement) : Applied :=
  (fromTheEnd replacements).foldl Applied.step ⟨0, content.toList⟩

def Applied.text (done : Applied) : String := String.ofList done.content

def Applied.modified (done : Applied) : Bool := 0 < done.count

/-- The byte offset of a UTF-16 offset that falls between two characters of a text. -/
def byteOffset? (content : List Char) (offset : UInt32) : Option Nat :=
  (Text.splitAt? Text.unitWidth offset.toNat content).map fun (before, _) =>
    Text.measure Text.byteWidth before

def Replacement.toBytes? (content : List Char) (r : Replacement) : Option Replacement := do
  let start ← byteOffset? content r.start
  let stop ← byteOffset? content r.stop
  return ⟨UInt32.ofNat start, UInt32.ofNat stop - UInt32.ofNat start, r.text⟩

def toByteOffsets (content : String) (replacements : List Replacement) : List Replacement :=
  replacements.filterMap (Replacement.toBytes? content.toList)

end LintBridge
