import Mathlib.Data.List.Basic

namespace BluesTrading.Foundations

universe u v w

structure TokenCodec (τ : Type u) (α : Type v) where
  encode : α → List τ
  decode : List τ → Option (α × List τ)
  decode_encode : ∀ a rest, decode (encode a ++ rest) = some (a, rest)

namespace TokenCodec

variable {τ : Type u} {α : Type v} {β : Type w}

@[simp] theorem decode_encode_append (codec : TokenCodec τ α) (a : α) (rest : List τ) :
    codec.decode (codec.encode a ++ rest) = some (a, rest) :=
  codec.decode_encode a rest

/-- One token of a kind. -/
def ofToken (token : α → τ) (value : τ → Option α) (h : ∀ a, value (token a) = some a) :
    TokenCodec τ α where
  encode a := [token a]
  decode
    | [] => none
    | t :: rest => (value t).map fun a => (a, rest)
  decode_encode a rest := by simp [h]

/-- A codec and then another. -/
def prod (first : TokenCodec τ α) (second : TokenCodec τ β) : TokenCodec τ (α × β) where
  encode p := first.encode p.1 ++ second.encode p.2
  decode stream := (first.decode stream).bind fun (a, rest) =>
    (second.decode rest).map fun (b, rest) => ((a, b), rest)
  decode_encode p rest := by simp

/-- The same tokens for the values of another type. -/
def imap (codec : TokenCodec τ α) (f : α → β) (g : β → α) (h : ∀ b, f (g b) = b) :
    TokenCodec τ β where
  encode b := codec.encode (g b)
  decode stream := (codec.decode stream).map fun (a, rest) => (f a, rest)
  decode_encode b rest := by simp [h]

def decodeList (codec : TokenCodec τ α) : ℕ → List τ → Option (List α × List τ)
  | 0, stream => some ([], stream)
  | n + 1, stream => (codec.decode stream).bind fun (a, rest) =>
      (codec.decodeList n rest).map fun (as, rest) => (a :: as, rest)

theorem decodeList_encode (codec : TokenCodec τ α) (as : List α) (rest : List τ) :
    codec.decodeList as.length (as.flatMap codec.encode ++ rest) = some (as, rest) := by
  induction as with
  | nil => rfl
  | cons a as ih =>
      simp only [List.flatMap_cons, List.append_assoc, List.length_cons, decodeList,
        decode_encode_append, Option.bind_some, ih, Option.map_some]

/-- The number of the values, and then each of them. -/
def counted (size : TokenCodec τ ℕ) (codec : TokenCodec τ α) : TokenCodec τ (List α) where
  encode as := size.encode as.length ++ as.flatMap codec.encode
  decode stream := (size.decode stream).bind fun (n, rest) => codec.decodeList n rest
  decode_encode as rest := by
    simp only [List.append_assoc, decode_encode_append, Option.bind_some, decodeList_encode]

end TokenCodec

end BluesTrading.Foundations
