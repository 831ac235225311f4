import Mathlib.Data.List.Basic

/-!
# The stream of a TCP transport

`send` and `receive` with what the system answers to their calls. An answer tells how many bytes it
takes or gives at most, and is at least one byte; a call that is interrupted is repeated at once and
has no answer of its own. Where no answers are left, everything goes through.
-/

namespace Alpine

namespace TcpTransport

/-- What `::send` answers: some bytes are taken, one more than the number, or an error. -/
inductive SendOutcome where
  | accepted (n : Nat)
  | failed
  deriving DecidableEq, Repr

/-- What `::recv` answers: some bytes are there, one more than the number, or an error. -/
inductive RecvOutcome where
  | arrived (n : Nat)
  | failed
  deriving DecidableEq, Repr

/-- What a call of `send` returns and the bytes that it got rid of. -/
structure Sent where
  ok : Bool
  bytes : List UInt8
  outcomes : List SendOutcome

def send : List SendOutcome → List UInt8 → Sent
  | outcomes, [] => ⟨true, [], outcomes⟩
  | [], data => ⟨true, data, []⟩
  | .failed :: outcomes, _ => ⟨false, [], outcomes⟩
  | .accepted n :: outcomes, data =>
    let rest := send outcomes (data.drop (n + 1))
    { rest with bytes := data.take (n + 1) ++ rest.bytes }

/-- The bytes of a call of `receive`, if it returns true, and what is left in the stream. -/
structure Received where
  data : Option (List UInt8)
  stream : List UInt8
  outcomes : List RecvOutcome

/-- At the end of the stream no bytes are read. -/
def receive (outcomes : List RecvOutcome) (stream : List UInt8) (bufferSize : Nat) : Received :=
  match outcomes with
  | [] => ⟨some (stream.take bufferSize), stream.drop bufferSize, []⟩
  | .arrived n :: outcomes =>
    ⟨some (stream.take (min bufferSize (n + 1))), stream.drop (min bufferSize (n + 1)), outcomes⟩
  | .failed :: outcomes => ⟨none, stream, outcomes⟩

/-- The answers that are left when `n` bytes have been taken, if they are. -/
def accept : List SendOutcome → Nat → Option (List SendOutcome)
  | outcomes, 0 => some outcomes
  | [], _ + 1 => some []
  | .failed :: _, _ + 1 => none
  | .accepted k :: outcomes, n + 1 => accept outcomes (n - k)

/-! ## What is sent -/

theorem send_nil (outcomes : List SendOutcome) : send outcomes [] = ⟨true, [], outcomes⟩ := by
  cases outcomes with
  | nil => rfl
  | cons outcome outcomes => cases outcome <;> rfl

/-- `send` returns true exactly if everything is taken, and has then sent its data. -/
theorem send_eq (outcomes : List SendOutcome) (data : List UInt8) :
    match accept outcomes data.length with
    | some rest => send outcomes data = ⟨true, data, rest⟩
    | none => (send outcomes data).ok = false := by
  induction outcomes generalizing data with
  | nil =>
    cases data with
    | nil => rfl
    | cons b data => rfl
  | cons outcome outcomes ih =>
    cases data with
    | nil =>
      rw [send_nil]
      cases outcome <;> rfl
    | cons b data =>
      cases outcome with
      | failed => rfl
      | accepted n =>
        have hlen : ((b :: data).drop (n + 1)).length = data.length - n := by simp
        have hrest := ih ((b :: data).drop (n + 1))
        rw [hlen] at hrest
        have haccept : accept (.accepted n :: outcomes) (b :: data).length =
            accept outcomes (data.length - n) := rfl
        rw [haccept]
        cases hcase : accept outcomes (data.length - n) with
        | none =>
          rw [hcase] at hrest
          exact hrest
        | some rest =>
          rw [hcase] at hrest
          dsimp only at hrest ⊢
          rw [send]
          · rw [hrest, List.take_append_drop]
          · exact List.cons_ne_nil b data

/-- Nothing is sent only if the first answer is an error. -/
theorem send_bytes_eq_nil_iff {outcomes : List SendOutcome} {b : UInt8} {data : List UInt8} :
    (send outcomes (b :: data)).bytes = [] ↔ outcomes.head? = some .failed := by
  cases outcomes with
  | nil => simp [send]
  | cons outcome outcomes => cases outcome <;> simp [send]

end TcpTransport

end Alpine
