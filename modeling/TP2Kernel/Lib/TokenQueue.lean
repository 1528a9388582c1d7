import Mathlib.Tactic

/-!
# Counters with a line

A counting semaphore that hands its tokens over: a post gives the token to whoever is first in
line and adds it to the free ones only where nobody waits. The names of those who wait are of
any type.
-/

/-- The free tokens, those who wait for one in the order in which they came, and how many tokens
have been posted and granted. -/
structure TokenQueue (α : Type*) where
  free : Nat
  line : List α
  posts : Nat
  granted : Nat

namespace TokenQueue

variable {α : Type*} {q : TokenQueue α} {v : Nat}

/-- `v` tokens and nobody in line. -/
def start (v : Nat) : TokenQueue α := ⟨v, [], 0, 0⟩

/-- `a` takes a free token, or joins the line. -/
def wait (q : TokenQueue α) (a : α) : TokenQueue α :=
  if 0 < q.free then { q with free := q.free - 1, granted := q.granted + 1 }
  else { q with line := q.line ++ [a] }

/-- A token goes to the first in line. -/
def post (q : TokenQueue α) : TokenQueue α :=
  match q.line with
  | [] => { q with free := q.free + 1, posts := q.posts + 1 }
  | _ :: line => { q with line := line, posts := q.posts + 1, granted := q.granted + 1 }

/-- Of `v` tokens and those posted, every one is free or granted, and nobody waits while a token
is free. -/
structure Balanced (v : Nat) (q : TokenQueue α) : Prop where
  total : v + q.posts = q.free + q.granted
  served : 0 < q.free → q.line = []

lemma balanced_start (v : Nat) : Balanced v (start v : TokenQueue α) := ⟨rfl, fun _ => rfl⟩

lemma Balanced.wait (h : Balanced v q) (a : α) : Balanced v (q.wait a) := by
  have ht := h.total
  unfold TokenQueue.wait
  split
  · rename_i hf
    refine ⟨?_, fun _ => h.served hf⟩
    dsimp only
    omega
  · rename_i hf
    exact ⟨ht, fun h0 => absurd h0 hf⟩

lemma Balanced.post (h : Balanced v q) : Balanced v q.post := by
  have ht := h.total
  unfold TokenQueue.post
  split
  · rename_i hl
    refine ⟨?_, fun _ => hl⟩
    dsimp only
    omega
  · rename_i a line hl
    refine ⟨?_, fun hf => ?_⟩
    · dsimp only
      omega
    · have := h.served hf
      rw [hl] at this
      cases this

end TokenQueue
