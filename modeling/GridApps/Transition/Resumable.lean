import GridApps.Transition.Runs
import Mathlib.Data.ENat.Basic

/-! Readers of a stream that keep what they cannot use yet. What a reader does is a matter of what
it has received, not of the pieces in which it came. -/
namespace GridApps.Transition

variable {S B : Type*}

/-- A reader waits for more, or it has used some of its input and goes on. -/
inductive Turn (S B : Type*) where
  | wait (s : S) (rest : List B)
  | next (s : S) (rest : List B)

def Turn.state : Turn S B → S
  | wait s _ => s
  | next s _ => s

def Turn.rest : Turn S B → List B
  | wait _ rest => rest
  | next _ rest => rest

section Reading

variable (turn : S → List B → Option (Turn S B))

def drain : ℕ → S → List B → Option (S × List B)
  | 0, s, buf => some (s, buf)
  | fuel + 1, s, buf =>
    (turn s buf).bind fun
      | .wait s rest => some (s, rest)
      | .next s rest => drain fuel s rest

/-- Turns are taken until the reader waits. -/
def work (s : S) (buf : List B) : Option (S × List B) := drain turn (buf.length + 1) s buf

def feed (c : S × List B) (chunk : List B) : Option (S × List B) := work turn c.1 (c.2 ++ chunk)

/-- What a turn does with some input it does with more; while it waits, nothing is lost. The limit
is on the input that it has at once. -/
structure Resumable (limit : ℕ∞) : Prop where
  shorter : ∀ {s s' buf rest}, turn s buf = some (.next s' rest) → rest.length < buf.length
  not_longer : ∀ {s s' buf rest}, turn s buf = some (.wait s' rest) → rest.length ≤ buf.length
  next_append : ∀ {s s' buf rest} more, ((buf ++ more).length : ℕ∞) ≤ limit →
    turn s buf = some (.next s' rest) → turn s (buf ++ more) = some (.next s' (rest ++ more))
  wait_append : ∀ {s s' buf rest} more, ((buf ++ more).length : ℕ∞) ≤ limit →
    turn s buf = some (.wait s' rest) → turn s (buf ++ more) = turn s' (rest ++ more)
  none_append : ∀ {s buf} more, ((buf ++ more).length : ℕ∞) ≤ limit →
    turn s buf = none → turn s (buf ++ more) = none

/-- What a turn on `buf` comes to, and what it comes to with more. -/
def Resumes (limit : ℕ∞) (s : S) (buf : List B) : Option (Turn S B) → Prop
  | none => ∀ more, ((buf ++ more).length : ℕ∞) ≤ limit → turn s (buf ++ more) = none
  | some (.next s' rest) => rest.length < buf.length ∧
      ∀ more, ((buf ++ more).length : ℕ∞) ≤ limit →
        turn s (buf ++ more) = some (.next s' (rest ++ more))
  | some (.wait s' rest) => rest.length ≤ buf.length ∧
      ∀ more, ((buf ++ more).length : ℕ∞) ≤ limit → turn s (buf ++ more) = turn s' (rest ++ more)

variable {turn}

theorem Resumable.of_turns {limit : ℕ∞} (h : ∀ s buf, Resumes turn limit s buf (turn s buf)) :
    Resumable turn limit where
  shorter {s s' buf rest} hturn := by
    have hresumes := h s buf
    rw [hturn] at hresumes
    exact hresumes.1
  not_longer {s s' buf rest} hturn := by
    have hresumes := h s buf
    rw [hturn] at hresumes
    exact hresumes.1
  next_append {s s' buf rest} more hfits hturn := by
    have hresumes := h s buf
    rw [hturn] at hresumes
    exact hresumes.2 more hfits
  wait_append {s s' buf rest} more hfits hturn := by
    have hresumes := h s buf
    rw [hturn] at hresumes
    exact hresumes.2 more hfits
  none_append {s buf} more hfits hturn := by
    have hresumes := h s buf
    rw [hturn] at hresumes
    exact hresumes more hfits

end Reading

namespace Resumable

variable {turn : S → List B → Option (Turn S B)} {limit : ℕ∞} (h : Resumable turn limit)
include h

theorem drain_eq {fuel fuel' : ℕ} {s : S} {buf : List B} (hfuel : buf.length < fuel)
    (hfuel' : buf.length < fuel') : drain turn fuel s buf = drain turn fuel' s buf := by
  induction fuel generalizing fuel' s buf with
  | zero => omega
  | succ fuel ih =>
    obtain ⟨fuel', rfl⟩ : ∃ n, fuel' = n + 1 := ⟨fuel' - 1, by omega⟩
    unfold drain
    cases hturn : turn s buf with
    | none => rfl
    | some r =>
      cases r with
      | wait s' rest => rfl
      | next s' rest =>
        have hshorter := h.shorter hturn
        exact ih (by omega) (by omega)

theorem work_eq (s : S) (buf : List B) :
    work turn s buf = (turn s buf).bind fun
      | .wait s rest => some (s, rest)
      | .next s rest => work turn s rest := by
  rw [work, drain]
  cases hturn : turn s buf with
  | none => rfl
  | some r =>
    cases r with
    | wait s' rest => rfl
    | next s' rest =>
      have hshorter := h.shorter hturn
      exact h.drain_eq hshorter (Nat.lt_succ_self _)

theorem work_append {s : S} {buf more : List B} (hfits : ((buf ++ more).length : ℕ∞) ≤ limit) :
    work turn s (buf ++ more) =
      (work turn s buf).bind fun r => work turn r.1 (r.2 ++ more) := by
  induction hn : buf.length using Nat.strong_induction_on generalizing s buf with
  | _ n ih =>
    subst hn
    rw [h.work_eq s buf, h.work_eq s (buf ++ more)]
    cases hturn : turn s buf with
    | none =>
      rw [h.none_append more hfits hturn]
      rfl
    | some r =>
      cases r with
      | wait s' rest =>
        rw [h.wait_append more hfits hturn]
        exact (h.work_eq s' (rest ++ more)).symm
      | next s' rest =>
        have hshorter := h.shorter hturn
        have hfits' : ((rest ++ more).length : ℕ∞) ≤ limit := by
          apply le_trans _ hfits
          rw [Nat.cast_le, List.length_append, List.length_append]
          omega
        rw [h.next_append more hfits hturn]
        exact ih rest.length hshorter hfits' rfl

theorem work_length {s s' : S} {buf rest : List B} (hwork : work turn s buf = some (s', rest)) :
    rest.length ≤ buf.length := by
  induction hn : buf.length using Nat.strong_induction_on generalizing s buf with
  | _ n ih =>
    subst hn
    rw [h.work_eq] at hwork
    cases hturn : turn s buf with
    | none =>
      rw [hturn] at hwork
      contradiction
    | some r =>
      rw [hturn] at hwork
      cases r with
      | wait s'' rest' =>
        obtain ⟨rfl, rfl⟩ := Prod.mk.inj (Option.some.inj hwork)
        exact h.not_longer hturn
      | next s'' rest' =>
        have hshorter := h.shorter hturn
        exact (ih rest'.length hshorter hwork rfl).trans hshorter.le

/-- What every turn keeps, all of them keep. -/
theorem work_induction {P : S → List B → Prop}
    (hturn : ∀ {s buf r}, P s buf → turn s buf = some r → P r.state r.rest) {s : S} {buf : List B}
    (hP : P s buf) {c : S × List B} (hwork : work turn s buf = some c) : P c.1 c.2 := by
  induction hn : buf.length using Nat.strong_induction_on generalizing s buf with
  | _ n ih =>
    subst hn
    rw [h.work_eq] at hwork
    obtain ⟨r, hr, hrest⟩ := Option.bind_eq_some_iff.mp hwork
    have hnext := hturn hP hr
    cases r with
    | wait s' rest =>
      obtain rfl := Option.some.inj hrest
      exact hnext
    | next s' rest => exact ih rest.length (h.shorter hr) hnext hrest rfl

theorem run_feed {c : S × List B} (chunk : List B) (chunks : List (List B))
    (hfits : ((c.2 ++ (chunk :: chunks).flatten).length : ℕ∞) ≤ limit) :
    run (feed turn) c (chunk :: chunks) = feed turn c (chunk :: chunks).flatten := by
  induction chunks generalizing c chunk with
  | nil =>
    rw [List.flatten_singleton, run]
    cases feed turn c chunk <;> rfl
  | cons chunk' chunks ih =>
    have hassoc : c.2 ++ (chunk :: chunk' :: chunks).flatten =
        c.2 ++ chunk ++ (chunk' :: chunks).flatten := by
      rw [List.flatten_cons, List.append_assoc]
    rw [hassoc] at hfits
    unfold run
    rw [feed, feed, hassoc, h.work_append hfits]
    cases hwork : work turn c.1 (c.2 ++ chunk) with
    | none => rfl
    | some r =>
      have hle := h.work_length hwork
      have hfits' : ((r.2 ++ (chunk' :: chunks).flatten).length : ℕ∞) ≤ limit := by
        apply le_trans _ hfits
        rw [Nat.cast_le, List.length_append, List.length_append]
        omega
      exact ih chunk' hfits'

/-- The pieces do not matter, only what they are together. -/
theorem run_feed_eq {c : S × List B} (hidle : work turn c.1 c.2 = some c) (chunks : List (List B))
    (hfits : ((c.2 ++ chunks.flatten).length : ℕ∞) ≤ limit) :
    run (feed turn) c chunks = feed turn c chunks.flatten := by
  cases chunks with
  | nil =>
    rw [List.flatten_nil, feed, List.append_nil, hidle]
    rfl
  | cons chunk chunks => exact h.run_feed chunk chunks hfits

end Resumable
end GridApps.Transition
