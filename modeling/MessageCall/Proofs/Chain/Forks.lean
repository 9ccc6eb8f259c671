import MessageCall.Chain.Rules
import MessageCall.Chain.Precompile
import Mathlib.Data.List.Pairwise

/-!
# One fork at a time

What a chain does at a block is derived from its configuration in two ways. `ChainConfig.forkAt`
searches the forks backwards for one that is active, and `ForkRules.atBlock` asks for each flag
whether its own fork is active. This module says what the search finds and when the two agree.

* `ChainConfig.forkAt` is the greatest fork that is active at the block, and it never goes back as
  blocks go on (`isActive_forkAt`, `le_forkAt`, `forkAt_mono`). Nothing is asked of the chain: the
  first fork is active everywhere, so the search cannot fail.
* The flags are those of the fork that the search finds exactly if a chain activates Homestead no
  later than anything behind it and Spurious Dragon no later than Byzantium
  (`ForkRules.atBlock_eq_ofFork_iff`). A chain whose activation blocks are in order does that
  (`ForkRules.forks_and_rules_agree`). On other chains the two differ by design, since each flag
  follows its own activation.

Activation blocks are compared by `NoLater`, for which a missing block is later than every other.
The block of the replay protection of Spurious Dragon plays no part.
-/

namespace MessageCall

namespace Fork

theorem mem_all (f : Fork) : f ∈ all := by cases f <;> decide

/-- The forks are listed in their order. -/
theorem pairwise_all : all.Pairwise (· ≤ ·) := by decide

end Fork

namespace ChainConfig

/-- One activation block is reached no later than another one. `none` is never reached. -/
def NoLater : Option UInt64 → Option UInt64 → Prop
  | some a, some b => a ≤ b
  | _, none => True
  | none, some _ => False

instance : ∀ a b, Decidable (NoLater a b)
  | some a, some b => inferInstanceAs (Decidable (a ≤ b))
  | some _, none => isTrue trivial
  | none, none => isTrue trivial
  | none, some _ => isFalse id

/-- Homestead and the three forks behind it are activated in their order. -/
structure InOrder (c : ChainConfig) : Prop where
  /-- Homestead comes no later than Tangerine Whistle. -/
  homestead : NoLater c.homesteadBlock c.eip150Block
  /-- Tangerine Whistle comes no later than Spurious Dragon. -/
  tangerineWhistle : NoLater c.eip150Block c.eip158Block
  /-- Spurious Dragon comes no later than Byzantium. -/
  spuriousDragon : NoLater c.eip158Block c.byzantiumBlock

variable {c : ChainConfig} {f g : Fork} {n n' : UInt64}

/-! ### When a fork is active -/

theorem isActive_iff : c.isActive f n = true ↔ ∃ b, c.activation f = some b ∧ b ≤ n := by
  unfold isActive
  cases c.activation f with
  | none => simp
  | some b => simp

/-- The first fork is active everywhere. -/
theorem isActive_frontier : c.isActive .frontier n = true :=
  isActive_iff.2 ⟨0, rfl, UInt64.zero_le⟩

/-- A fork stays active. -/
theorem isActive_mono (hn : n ≤ n') (hf : c.isActive f n = true) : c.isActive f n' = true := by
  obtain ⟨b, hb, hle⟩ := isActive_iff.1 hf
  exact isActive_iff.2 ⟨b, hb, UInt64.le_trans hle hn⟩

/-- One fork is activated no later than another one exactly if it is active wherever the other one
is. -/
theorem noLater_activation_iff : NoLater (c.activation f) (c.activation g) ↔
    ∀ n, c.isActive g n = true → c.isActive f n = true := by
  constructor
  · -- A block at which the later fork is active is past the block of the earlier one.
    intro h n hg
    obtain ⟨b, hb, hle⟩ := isActive_iff.1 hg
    rw [hb] at h
    cases hf : c.activation f with
    | none => rw [hf] at h; exact h.elim
    | some a =>
      rw [hf] at h
      exact isActive_iff.2 ⟨a, hf, UInt64.le_trans h hle⟩
  · intro h
    cases hg : c.activation g with
    | none => cases c.activation f <;> trivial
    | some b =>
      -- The block that activates the one fork is a block where the other one is active.
      obtain ⟨a, ha, hle⟩ := isActive_iff.1 (h b (isActive_iff.2 ⟨b, hg, UInt64.le_refl b⟩))
      rw [ha]
      exact hle

/-! ### The latest active fork -/

/-- The search ends with a fork that it has found, and it has passed no active fork before. -/
theorem find_forkAt : ∃ later earlier, Fork.all.reverse = later ++ c.forkAt n :: earlier ∧
    c.isActive (c.forkAt n) n = true ∧ ∀ g ∈ later, ¬ c.isActive g n = true := by
  have hfound : ∃ f, Fork.all.reverse.find? (fun g => c.isActive g n) = some f := by
    apply Option.isSome_iff_exists.1
    rw [List.find?_isSome]
    exact ⟨.frontier, List.mem_reverse.2 (Fork.mem_all _), isActive_frontier⟩
  obtain ⟨f, hf⟩ := hfound
  have hat : c.forkAt n = f := by rw [forkAt, hf, Option.getD_some]
  obtain ⟨hactive, later, earlier, hsplit, hlater⟩ := List.find?_eq_some_iff_append.1 hf
  rw [hat]
  exact ⟨later, earlier, hsplit, hactive, fun g hg => by simpa using hlater g hg⟩

/-- The fork at a block is active there. -/
theorem isActive_forkAt (c : ChainConfig) (n : UInt64) : c.isActive (c.forkAt n) n = true := by
  obtain ⟨_, _, _, hactive, _⟩ := find_forkAt (c := c) (n := n)
  exact hactive

/-- No later fork is active at a block than the fork at that block. -/
theorem le_forkAt (hg : c.isActive g n = true) : g ≤ c.forkAt n := by
  obtain ⟨later, earlier, hsplit, -, hlater⟩ := find_forkAt (c := c) (n := n)
  have hmem : g ∈ later ++ c.forkAt n :: earlier := hsplit ▸ List.mem_reverse.2 (Fork.mem_all g)
  have hsorted : (later ++ c.forkAt n :: earlier).Pairwise fun f g => g ≤ f :=
    hsplit ▸ List.pairwise_reverse.2 Fork.pairwise_all
  rcases List.mem_append.1 hmem with hbefore | hfrom
  · exact absurd hg (hlater g hbefore)
  rcases List.mem_cons.1 hfrom with hhere | hbehind
  · rw [hhere]
    exact Nat.le_refl _
  · exact (List.pairwise_cons.1 (List.pairwise_append.1 hsorted).2.1).1 g hbehind

/-- The fork at a block never goes back as blocks go on. -/
theorem forkAt_mono (hn : n ≤ n') : c.forkAt n ≤ c.forkAt n' :=
  le_forkAt (isActive_mono hn (isActive_forkAt c n))

/-- A fork is reached at a block exactly if it or a later one is active there. -/
theorem le_forkAt_iff : f ≤ c.forkAt n ↔ ∃ g, f ≤ g ∧ c.isActive g n = true := by
  constructor
  · intro h
    exact ⟨c.forkAt n, h, isActive_forkAt c n⟩
  · rintro ⟨g, hle, hg⟩
    exact Nat.le_trans hle (le_forkAt hg)

/-- A fork is active exactly where the chain has reached it, if and only if it is activated no
later than every fork behind it. -/
theorem isActive_iff_le_forkAt : (∀ n, c.isActive f n = true ↔ f ≤ c.forkAt n) ↔
    ∀ g, f ≤ g → NoLater (c.activation f) (c.activation g) := by
  constructor
  · intro h g hle
    refine noLater_activation_iff.2 fun n hg => (h n).2 ?_
    exact le_forkAt_iff.2 ⟨g, hle, hg⟩
  · intro h n
    refine ⟨le_forkAt, fun hreached => ?_⟩
    obtain ⟨g, hle, hg⟩ := le_forkAt_iff.1 hreached
    exact noLater_activation_iff.1 (h g hle) n hg

/-! ### Chains that activate their forks in order -/

theorem NoLater.refl : ∀ a, NoLater a a
  | some a => UInt64.le_refl a
  | none => trivial

theorem NoLater.trans : ∀ {a b d}, NoLater a b → NoLater b d → NoLater a d
  | some _, some _, some _, hab, hbd => UInt64.le_trans hab hbd
  | some _, _, none, _, _ => trivial
  | none, _, none, _, _ => trivial
  | none, none, some _, _, hbd => hbd.elim
  | none, some _, some _, hab, _ => hab.elim
  | some _, none, some _, _, hbd => hbd.elim

/-- The first fork is activated before everything. -/
theorem NoLater.zero : ∀ a, NoLater (some 0) a
  | some _ => UInt64.zero_le
  | none => trivial

/-- On a chain in order, an earlier fork is activated no later than a later one. -/
theorem InOrder.noLater (h : c.InOrder) (hle : f ≤ g) :
    NoLater (c.activation f) (c.activation g) := by
  have hlate := h.tangerineWhistle.trans h.spuriousDragon
  -- From the earlier fork up, each step is one of the hypotheses.
  cases f with
  | frontier => exact .zero _
  | homestead =>
    cases g with
    | homestead => exact .refl _
    | tangerineWhistle => exact h.homestead
    | spuriousDragon => exact h.homestead.trans h.tangerineWhistle
    | byzantium => exact h.homestead.trans hlate
    | frontier => exact absurd hle (by decide)
  | tangerineWhistle =>
    cases g with
    | tangerineWhistle => exact .refl _
    | spuriousDragon => exact h.tangerineWhistle
    | byzantium => exact hlate
    | _ => exact absurd hle (by decide)
  | spuriousDragon =>
    cases g with
    | spuriousDragon => exact .refl _
    | byzantium => exact h.spuriousDragon
    | _ => exact absurd hle (by decide)
  | byzantium =>
    cases g with
    | byzantium => exact .refl _
    | _ => exact absurd hle (by decide)

end ChainConfig

/-! ### The rules of the fork at a block -/

namespace ForkRules

open ChainConfig

variable {c : ChainConfig} {n : UInt64}

/-- At one block the flags are those of the fork there exactly if both their forks are active where
they are reached. -/
theorem atBlock_eq_iff : atBlock c n = ofFork (c.forkAt n) ↔
    (c.isActive .homestead n = true ↔ .homestead ≤ c.forkAt n) ∧
    (c.isActive .spuriousDragon n = true ↔ .spuriousDragon ≤ c.forkAt n) := by
  have hflag (f : Fork) : c.isActive f n = decide (f ≤ c.forkAt n) ↔
      (c.isActive f n = true ↔ f ≤ c.forkAt n) := by
    rw [Bool.eq_iff_iff, decide_eq_true_iff]
  rw [atBlock, ofFork, mk.injEq, hflag, hflag]
  exact and_iff_right rfl

/-- **Where the flags and the fork agree.** At every block of a chain the rules are those of the
fork there, if and only if Homestead and Spurious Dragon are each activated no later than every
fork behind it. -/
theorem atBlock_eq_ofFork_iff : (∀ n, atBlock c n = ofFork (c.forkAt n)) ↔
    (∀ g, .homestead ≤ g → NoLater c.homesteadBlock (c.activation g)) ∧
    ∀ g, .spuriousDragon ≤ g → NoLater c.eip158Block (c.activation g) := by
  calc (∀ n, atBlock c n = ofFork (c.forkAt n))
      ↔ (∀ n, c.isActive .homestead n = true ↔ .homestead ≤ c.forkAt n) ∧
          ∀ n, c.isActive .spuriousDragon n = true ↔ .spuriousDragon ≤ c.forkAt n := by
        simp only [atBlock_eq_iff, forall_and]
    _ ↔ _ := and_congr isActive_iff_le_forkAt isActive_iff_le_forkAt

/-- **The fork at a block and the rules at a block agree.** On every chain, the fork at a block is
active there and no later one is, and it never goes back as blocks go on. On a chain that activates
Homestead and the forks behind it in their order, the rules at a block are those of the fork there:
its native contracts, its treatment of empty accounts, of code that cannot be paid for and of the
nonce of a new account. -/
theorem forks_and_rules_agree (c : ChainConfig) :
    (∀ n, c.isActive (c.forkAt n) n = true ∧
      ∀ g ∈ Fork.all, ¬ g ≤ c.forkAt n → c.isActive g n = false) ∧
    (∀ n n', n ≤ n' → c.forkAt n ≤ c.forkAt n') ∧
    (c.InOrder → ∀ n, atBlock c n = ofFork (c.forkAt n) ∧
      Precompile.ofFork (atBlock c n).fork =
        Precompile.all.filter (fun p => p.since ≤ c.forkAt n) ∧
      (atBlock c n).skipsEmptyCalls = decide (.spuriousDragon ≤ c.forkAt n) ∧
      (atBlock c n).codeStoreReverts = decide (.homestead ≤ c.forkAt n) ∧
      (atBlock c n).createdNonce = if .spuriousDragon ≤ c.forkAt n then 1 else 0) := by
  refine ⟨fun n => ⟨isActive_forkAt c n, fun g _ hlater => ?_⟩, fun n n' => forkAt_mono,
    fun hc n => ?_⟩
  · -- No later fork is active, for the fork at a block is the last active one.
    exact Bool.eq_false_iff.2 fun hg => hlater (le_forkAt hg)
  · -- In order, the flags of a block are those of its fork.
    have hagree : atBlock c n = ofFork (c.forkAt n) :=
      atBlock_eq_ofFork_iff.2 ⟨fun _ => hc.noLater, fun _ => hc.noLater⟩ n
    refine ⟨hagree, rfl, ?_, ?_, ?_⟩
    · rw [hagree]; rfl
    · rw [hagree]; rfl
    · rw [hagree]
      show (if decide (Fork.spuriousDragon ≤ c.forkAt n) = true then (1 : UInt64) else 0) = _
      simp only [decide_eq_true_iff]

/-- A chain with two forks at one block, without Byzantium and with the replay protection long
before the rest. -/
theorem forks_and_rules_agree_sample :
    let c : ChainConfig := { ChainConfig.staged with
      eip150Block := some 100, eip155Block := some 7, byzantiumBlock := none }
    c.InOrder ∧ (100 : UInt64) ≤ 250 ∧ c.forkAt 100 = .tangerineWhistle ∧
      c.forkAt 100 ≤ c.forkAt 250 ∧ atBlock c 250 = ofFork .spuriousDragon ∧
      c.isActive .byzantium 250 = false := by
  intro c
  have hc : c.InOrder := ⟨by decide, by decide, by decide⟩
  obtain ⟨hlatest, hmono, hrules⟩ := forks_and_rules_agree c
  exact ⟨hc, by decide, by decide, hmono 100 250 (by decide), (hrules hc 250).1,
    (hlatest 250).2 .byzantium (Fork.mem_all _) (by decide)⟩

/-- Each flag follows its own activation: with Spurious Dragon alone from the first block on, the
fork there is Spurious Dragon, but code that cannot be paid for is treated as before Homestead. -/
example : let c : ChainConfig := { eip158Block := some 0 }
    c.forkAt 5 = .spuriousDragon ∧ (atBlock c 5).codeStoreReverts = false ∧
      (ofFork (c.forkAt 5)).codeStoreReverts = true := by decide

end ForkRules

end MessageCall
