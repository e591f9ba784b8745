import MipsRecompiler.Proofs.Engine.Integrity

/-!
# Ranges of the cache

Every range is noted when it is handed out, with the compilation whose code was put there. The
ranges that were handed out since the last flush lie one behind the other and keep their code. No
block is found whose range is not among them, and those from before the flush cannot be read any
more. Nothing is asked of memory for this.
-/

set_option autoImplicit false

namespace MipsRecompiler

open BlockDirectory (pageOf wordOf)

/-- A compilation whose code was put into the cache, and the range that was handed out for it. -/
structure Deposit where
  range : CodeRange
  compilation : Compilation

namespace Deposit

def code (deposit : Deposit) : List UInt8 :=
  deposit.compilation.code

/-- What was put there when the block at an address was compiled. -/
structure Serves (deposit : Deposit) (platform : Platform) (physical : Word)
    (block : CompiledBlock) : Prop where
  range : deposit.range = block.code
  starts : deposit.compilation.codeUnit.startPc = block.startPc
  lies : pageOf deposit.compilation.codeUnit.startPhysical = pageOf physical ∧
    wordOf deposit.compilation.codeUnit.startPhysical = wordOf physical
  compiles : deposit.compilation.codeUnit.compile block.configuration platform =
    .ok deposit.compilation

end Deposit

structure Ledger where
  /-- Since the last flush, in order. -/
  current : List Deposit
  /-- Before it. -/
  stale : List CodeRange

namespace Ledger

def empty : Ledger := ⟨[], []⟩

def flush (ledger : Ledger) : Ledger :=
  ⟨[], ledger.stale ++ ledger.current.map Deposit.range⟩

def add (ledger : Ledger) (range : CodeRange) (compilation : Compilation) : Ledger :=
  { ledger with current := ledger.current ++ [⟨range, compilation⟩] }

/-- Notes what was done to a recompiler at once, as it shows itself: the counters tell whether it
was flushed, and whether a block was compiled after that. -/
def note (ledger : Ledger) (before after : Recompiler) : Ledger :=
  let kept :=
    if after.statistics.cacheFlushes = before.statistics.cacheFlushes then ledger
    else ledger.flush
  if after.statistics.blocksCompiled = before.statistics.blocksCompiled then kept
  else
    match after.last with
    | some (compilation, range) => kept.add range compilation
    | none => kept

end Ledger

/-- The ledger is right about the cache, and knows the range of every block in the directory. -/
structure Ledger.Accounts (ledger : Ledger) (recompiler : Recompiler) : Prop where
  bounded : recompiler.cache.used ≤ recompiler.cache.capacity
  inOrder : ledger.current.Pairwise fun first second =>
    first.range.offset + first.range.length ≤ second.range.offset
  held : ∀ deposit ∈ ledger.current, recompiler.cache.Holds deposit.range deposit.code
  listed : ∀ physical block, recompiler.directory.get? physical = some block →
    ∃ deposit ∈ ledger.current,
      deposit.Serves recompiler.settings.platform.platform physical block
  generation : recompiler.cache.generation = BitVec.ofNat 32 recompiler.statistics.cacheFlushes
  stale : ∀ range ∈ ledger.stale, ∃ earlier < recompiler.statistics.cacheFlushes,
    range.generation = BitVec.ofNat 32 earlier

/-- What was done between two states of a recompiler did not touch the cache. -/
structure Recompiler.Spares (before after : Recompiler) : Prop where
  settings : after.settings = before.settings
  cache : after.cache = before.cache
  flushes : after.statistics.cacheFlushes = before.statistics.cacheFlushes
  compiled : after.statistics.blocksCompiled = before.statistics.blocksCompiled
  directory : ∀ physical block, after.directory.get? physical = some block →
    before.directory.get? physical = some block

namespace Recompiler.Spares

theorem refl (recompiler : Recompiler) : recompiler.Spares recompiler :=
  ⟨rfl, rfl, rfl, rfl, fun _ _ found => found⟩

theorem count (recompiler : Recompiler) (statistics : Statistics)
    (last : Option (Compilation × CodeRange))
    (flushes : statistics.cacheFlushes = recompiler.statistics.cacheFlushes)
    (compiled : statistics.blocksCompiled = recompiler.statistics.blocksCompiled) :
    recompiler.Spares { recompiler with statistics, last } :=
  ⟨rfl, rfl, flushes, compiled, fun _ _ found => found⟩

theorem forget (recompiler : Recompiler) : recompiler.Spares recompiler.forget :=
  .count recompiler recompiler.statistics none rfl rfl

theorem invalidate (recompiler : Recompiler) (physical : Word) :
    recompiler.Spares (recompiler.invalidate physical) := by
  unfold Recompiler.invalidate
  dsimp only
  split
  · exact ⟨rfl, rfl, rfl, rfl, fun _ _ => BlockDirectory.get?_of_invalidate⟩
  · exact refl recompiler

end Recompiler.Spares

namespace Ledger

variable {ledger : Ledger} {before middle after recompiler stored : Recompiler}
  {range : CodeRange} {compilation : Compilation}

theorem note_of_spares (spares : before.Spares after) : ledger.note before after = ledger := by
  simp only [note, spares.flushes, spares.compiled, if_true]

/-- What does not touch the cache, and keeps what was compiled last, changes no note. -/
theorem note_congr (spares : middle.Spares after) (last : after.last = middle.last) :
    ledger.note before after = ledger.note before middle := by
  simp only [note, spares.flushes, spares.compiled, last]

theorem note_congr_left (spares : before.Spares middle) :
    ledger.note before after = ledger.note middle after := by
  simp only [note, spares.flushes, spares.compiled]

namespace Accounts

theorem ofSettings (settings : Settings) : empty.Accounts (.ofSettings settings) where
  bounded := Nat.zero_le _
  inOrder := .nil
  held := by
    intro deposit member
    cases member
  listed := by
    intro physical block found
    simp [Recompiler.ofSettings, BlockDirectory.get?, BlockDirectory.page?,
      BlockDirectory.empty] at found
  generation := rfl
  stale := by
    intro range member
    cases member

theorem spare (accounts : ledger.Accounts before) (spares : before.Spares after) :
    ledger.Accounts after := by
  obtain ⟨bounded, inOrder, held, listed, generation, stale⟩ := accounts
  rw [← spares.cache] at bounded held generation
  rw [← spares.flushes] at generation stale
  rw [← spares.settings] at listed
  exact ⟨bounded, inOrder, held,
    fun physical block found => listed physical block (spares.directory physical block found),
    generation, stale⟩

theorem flush (accounts : ledger.Accounts recompiler) :
    ledger.flush.Accounts recompiler.flush where
  bounded := Nat.zero_le _
  inOrder := .nil
  held := by
    intro deposit member
    cases member
  listed := by
    intro physical block found
    simp [Recompiler.flush, BlockDirectory.get?, BlockDirectory.page?,
      BlockDirectory.empty] at found
  generation := by
    simp only [Recompiler.flush, CodeCache.flush, accounts.generation]
    exact (BitVec.ofNat_add ..).symm
  stale := by
    intro range member
    simp only [Ledger.flush, List.mem_append, List.mem_map] at member
    simp only [Recompiler.flush]
    rcases member with before | ⟨deposit, present, rfl⟩
    · obtain ⟨earlier, less, same⟩ := accounts.stale range before
      exact ⟨earlier, Nat.lt_succ_of_lt less, same⟩
    · exact ⟨recompiler.statistics.cacheFlushes, Nat.lt_succ_self _,
        (accounts.held deposit present).generation.trans accounts.generation⟩

theorem insert? (accounts : ledger.Accounts recompiler) {cache : CodeCache}
    (inserts : recompiler.cache.insert? compilation.code = some (range, cache)) :
    (ledger.add range compilation).Accounts { recompiler with cache } := by
  have holds := CodeCache.insert?_holds inserts
  have bounded := CodeCache.insert?_bounded inserts
  have kept := fun deposit member => (accounts.held deposit member).insert? inserts
  obtain ⟨-, rfl, rfl⟩ := CodeCache.insert?_some inserts
  refine ⟨bounded, ?_, ?_, ?_, accounts.generation, accounts.stale⟩
  · refine List.pairwise_append.mpr ⟨accounts.inOrder, List.pairwise_singleton _ _, ?_⟩
    intro deposit member last behind
    cases List.mem_singleton.mp behind
    exact (accounts.held deposit member).inside
  · intro deposit member
    rcases List.mem_append.mp member with before | last
    · exact kept deposit before
    · cases List.mem_singleton.mp last
      exact holds
  · intro physical block found
    obtain ⟨deposit, member, same⟩ := accounts.listed physical block found
    exact ⟨deposit, List.mem_append_left _ member, same⟩

theorem enter (accounts : ledger.Accounts recompiler) {configuration : Configuration}
    (compiles : compilation.codeUnit.compile configuration
      recompiler.settings.platform.platform = .ok compilation)
    (member : ⟨range, compilation⟩ ∈ ledger.current) :
    ledger.Accounts (recompiler.enter compilation range configuration).2 where
  bounded := accounts.bounded
  inOrder := accounts.inOrder
  held := accounts.held
  listed := by
    intro physical block found
    have entered := BlockDirectory.get?_insert recompiler.directory
      compilation.codeUnit.startPhysical
      (recompiler.enter compilation range configuration).1
      compilation.codeUnit.sourceWords physical
    rw [show (recompiler.enter compilation range configuration).2.directory.get? physical = _
      from entered] at found
    split at found
    next lies =>
      cases found
      exact ⟨_, member, rfl, rfl, lies, compiles⟩
    · exact accounts.listed physical block found
  generation := accounts.generation
  stale := accounts.stale

end Accounts

end Ledger

/-! ## Compiling -/

namespace Recompiler

variable {recompiler stored : Recompiler} {range : CodeRange} {code : List UInt8}

/-- Code has no room only if it is larger than the whole cache. -/
theorem lt_length_of_store_error {reason : CompileError}
    (fails : recompiler.store code = .error reason) :
    recompiler.cache.capacity < code.length := by
  unfold store at fails
  dsimp only at fails
  split at fails
  next large => exact large
  next room =>
    have behind : recompiler.flush.cache.used + code.length ≤ recompiler.flush.cache.capacity := by
      simp only [flush, CodeCache.flush]
      omega
    have fits : recompiler.flush.cache.fits code.length = true := decide_eq_true behind
    split at fails
    next => cases fails
    next =>
      split at fails
      next => cases fails
      next misses =>
        rw [CodeCache.insert?, if_pos fits] at misses
        cases misses

end Recompiler

section Compiling

variable {ledger : Ledger} {recompiler stored : Recompiler} {range : CodeRange}
  {compilation : Compilation}

/-- A compilation that is entered adds one range to the ledger, after at most one flush. -/
theorem Ledger.Accounts.compile (accounts : ledger.Accounts recompiler)
    {configuration : Configuration}
    (compiles : compilation.codeUnit.compile configuration
      recompiler.settings.platform.platform = .ok compilation)
    (stores : recompiler.store compilation.code = .ok (range, stored)) :
    (ledger.note recompiler (stored.enter compilation range configuration).2).Accounts
      (stored.enter compilation range configuration).2 := by
  obtain ⟨base, cache, origin, inserts, rfl⟩ := Recompiler.store_ok stores
  rcases origin with rfl | rfl
  · have added := accounts.insert? inserts
    have noted : ledger.note base
        (Recompiler.enter { base with cache } compilation range configuration).2 =
          ledger.add range compilation := by
      simp [Ledger.note, Recompiler.enter]
    rw [noted]
    exact added.enter compiles (List.mem_append_right _ (List.mem_singleton_self _))
  · have added := accounts.flush.insert? inserts
    have noted : ledger.note recompiler
        (Recompiler.enter { recompiler.flush with cache } compilation range configuration).2 =
          ledger.flush.add range compilation := by
      simp [Ledger.note, Recompiler.enter, Recompiler.flush]
    rw [noted]
    exact added.enter compiles (List.mem_append_right _ (List.mem_singleton_self _))

end Compiling

namespace Engine

variable {β : Type} [Bus β] {engine : Engine β} {ledger : Ledger}

theorem Compiles.accounts {physical : Word} {configuration : Configuration}
    {result : EStateM.Result RecompilerError (Engine β) CompiledBlock}
    (compiles : Compiles engine physical configuration result)
    (accounts : ledger.Accounts engine.recompiler) :
    (ledger.note engine.recompiler (left result).recompiler).Accounts (left result).recompiler := by
  have forgets := Recompiler.Spares.forget engine.recompiler
  have kept : (ledger.note engine.recompiler engine.recompiler.forget).Accounts
      engine.recompiler.forget := by
    rw [Ledger.note_of_spares forgets]
    exact accounts.spare forgets
  cases compiles with
  | unformed => exact kept
  | uncompiled => exact kept
  | unstored => exact kept
  | entered _ compiles stores =>
      obtain ⟨same, -⟩ := CodeUnit.compile_ok compiles
      rw [← same] at compiles
      have entered := (accounts.spare forgets).compile compiles stores
      rw [← Ledger.note_congr_left forgets] at entered
      exact entered

theorem Finds.accounts {physical : Word}
    {result : EStateM.Result RecompilerError (Engine β) CompiledBlock}
    (finds : Finds engine physical result) (accounts : ledger.Accounts engine.recompiler) :
    (ledger.note engine.recompiler (left result).recompiler).Accounts (left result).recompiler := by
  cases finds with
  | there =>
      rw [left, Ledger.note_of_spares (.refl _)]
      exact accounts
  | @compiled statistics _ compiles counts =>
      obtain ⟨misses, rfl⟩ := counts
      have counted := Recompiler.Spares.count engine.recompiler
        { engine.recompiler.statistics with configurationMisses := misses }
        engine.recompiler.last rfl rfl
      have compiled := compiles.accounts (accounts.spare counted)
      rw [← Ledger.note_congr_left counted] at compiled
      exact compiled

/-- Whatever its code does, a block that runs leaves what the cache holds, and drops blocks at
most. -/
theorem executeBlock_spares (block : CompiledBlock) (engine : Engine β) :
    engine.recompiler.Spares (left (executeBlock block engine)).recompiler ∧
      (left (executeBlock block engine)).recompiler.last = engine.recompiler.last := by
  unfold executeBlock
  dsimp only
  cases engine.recompiler.cache.get? block.code with
  | none => exact ⟨.refl _, rfl⟩
  | some code =>
      have fewer := HostCode.execute_keeps (fewer_invariant engine.recompiler.directory) code
        engine.watched fun _ _ found => found
      dsimp only [settle]
      split <;> exact ⟨⟨rfl, rfl, rfl, rfl, fewer⟩, rfl⟩

theorem Stepped.accounts {result : EStateM.Result RecompilerError (Engine β) Nat}
    (stepped : Stepped engine result) (accounts : ledger.Accounts engine.recompiler) :
    (ledger.note engine.recompiler (left result).recompiler).Accounts (left result).recompiler := by
  have finds (physical : Word) := (findBlock_finds engine physical).accounts accounts
  cases stepped with
  | fault =>
      rw [left, Ledger.note_of_spares (.refl _)]
      exact accounts
  | @unfound physical reason next translates fails =>
      have noted := finds physical
      rw [fails] at noted
      exact noted
  | @waited physical block between cycles statistics translates found scheduled counts =>
      obtain ⟨skips, rfl⟩ := counts
      have noted := finds physical
      rw [found] at noted
      have waits := Recompiler.Spares.count between.recompiler
        { between.recompiler.statistics with idleLoopSkips := skips }
        between.recompiler.last rfl rfl
      rw [left, Ledger.note_congr waits rfl]
      exact noted.spare waits
  | @executed physical block between translates found =>
      have noted := finds physical
      rw [found] at noted
      obtain ⟨spares, last⟩ := executeBlock_spares block between
      rw [Ledger.note_congr spares last]
      exact noted.spare spares

/-! ## Everything that can be done to an engine -/

theorem perform_accounts (accounts : ledger.Accounts engine.recompiler) (action : Action β) :
    (ledger.note engine.recompiler (engine.perform action).recompiler).Accounts
      (engine.perform action).recompiler := by
  have idle := Recompiler.Spares.refl engine.recompiler
  have flushed : (ledger.note engine.recompiler engine.recompiler.flush).Accounts
      engine.recompiler.flush := by
    have noted : ledger.note engine.recompiler engine.recompiler.flush = ledger.flush := by
      simp [Ledger.note, Recompiler.flush]
    rw [noted]
    exact accounts.flush
  cases action with
  | step =>
      have stepped := (step_stepped engine).accounts accounts
      rw [perform]
      cases steps : step engine with
      | ok cycles next =>
          rw [steps] at stepped
          exact stepped
      | error reason next =>
          rw [steps] at stepped
          exact stepped
  | edit change =>
      rw [perform, Ledger.note_of_spares idle]
      exact accounts
  | schedule nextEvent =>
      rw [perform, Ledger.note_of_spares idle]
      exact accounts
  | loadState cpu => exact flushed
  | invalidate physical =>
      have drops := Recompiler.Spares.invalidate engine.recompiler physical
      rw [perform, Engine.invalidate, Ledger.note_of_spares drops]
      exact accounts.spare drops
  | flush => exact flushed

/-- The ledger of a run, given the one before it. -/
def ledgerOf (engine : Engine β) (noted : Ledger) : List (Action β) → Ledger
  | [] => noted
  | action :: rest =>
    (engine.perform action).ledgerOf
      (noted.note engine.recompiler (engine.perform action).recompiler) rest

theorem ledgerOf_accounts {noted : Ledger} (actions : List (Action β))
    (accounts : noted.Accounts engine.recompiler) :
    (engine.ledgerOf noted actions).Accounts (actions.foldl perform engine).recompiler := by
  induction actions generalizing engine noted with
  | nil => exact accounts
  | cons action rest ih => exact ih (perform_accounts accounts action)

end Engine

/-- What a ledger says of the cache of a recompiler, and of the blocks that are found. -/
structure Recompiler.Retains (recompiler : Recompiler) (ledger : Ledger) : Prop where
  within : recompiler.cache.used ≤ recompiler.cache.capacity
  apart : ledger.current.Pairwise fun first second =>
    first.range.offset + first.range.length ≤ second.range.offset ∨
      second.range.offset + second.range.length ≤ first.range.offset
  below : ∀ deposit ∈ ledger.current,
    deposit.range.offset + deposit.range.length ≤ recompiler.cache.used
  reads : ∀ deposit ∈ ledger.current,
    recompiler.cache.get? deposit.range = some deposit.code
  found : ∀ physical block, recompiler.directory.get? physical = some block →
    block.code.generation = recompiler.cache.generation ∧
      ∃ deposit ∈ ledger.current,
        deposit.Serves recompiler.settings.platform.platform physical block
  stale : recompiler.statistics.cacheFlushes < 0x100000000 →
    ∀ range ∈ ledger.stale, recompiler.cache.get? range = none

theorem Ledger.Accounts.retains {ledger : Ledger} {recompiler : Recompiler}
    (accounts : ledger.Accounts recompiler) : recompiler.Retains ledger where
  within := accounts.bounded
  apart := accounts.inOrder.imp .inl
  below deposit member := (accounts.held deposit member).inside
  reads deposit member := (accounts.held deposit member).get? accounts.bounded
  found := by
    intro physical block found
    obtain ⟨deposit, member, serves⟩ := accounts.listed physical block found
    have current := (accounts.held deposit member).generation
    rw [serves.range] at current
    exact ⟨current, deposit, member, serves⟩
  stale := by
    intro few range member
    obtain ⟨earlier, less, old⟩ := accounts.stale range member
    have differs : range.generation ≠ recompiler.cache.generation := by
      rw [old, accounts.generation, Ne, ← BitVec.toNat_inj, BitVec.toNat_ofNat,
        BitVec.toNat_ofNat, Nat.mod_eq_of_lt (Nat.lt_trans less few), Nat.mod_eq_of_lt few]
      exact Nat.ne_of_lt less
    rw [CodeCache.get?, if_neg fun current => differs current.1]

namespace Engine

variable {β : Type} [Bus β] {engine : Engine β}

/-- What compiling may come to. It succeeds after at most one flush, with the block in the
directory and its code in the cache, or it fails without a flush, and then the code, if there is
some, is larger than the whole cache. -/
def Settles (engine : Engine β) (physical : Word) (configuration : Configuration) :
    EStateM.Result RecompilerError (Engine β) CompiledBlock → Prop
  | .ok block next => ∃ codeUnit bus compilation,
      CodeUnit.form engine.machine.tlb engine.machine.cpu.control engine.machine.cpu.pc physical
        engine.machine.bus = .ok codeUnit bus ∧
      codeUnit.compile configuration engine.recompiler.settings.platform.platform =
        .ok compilation ∧
      next.recompiler.statistics.cacheFlushes ≤ engine.recompiler.statistics.cacheFlushes + 1 ∧
      next.recompiler.cache.get? block.code = some compilation.code ∧
      next.recompiler.directory.get? physical = some block
  | .error _ next =>
      next.recompiler.statistics.cacheFlushes = engine.recompiler.statistics.cacheFlushes ∧
      ∀ codeUnit bus compilation,
        CodeUnit.form engine.machine.tlb engine.machine.cpu.control engine.machine.cpu.pc physical
          engine.machine.bus = .ok codeUnit bus →
        codeUnit.compile configuration engine.recompiler.settings.platform.platform =
          .ok compilation →
        engine.recompiler.cache.capacity < compilation.code.length

theorem Compiles.settles {physical : Word} {configuration : Configuration}
    {result : EStateM.Result RecompilerError (Engine β) CompiledBlock}
    (compiles : Compiles engine physical configuration result) :
    engine.Settles physical configuration result := by
  have listed := fun block next (same : result = .ok block next) => (same ▸ compiles).listed
  cases compiles with
  | unformed fails =>
      refine ⟨rfl, fun codeUnit bus compilation forms => ?_⟩
      rw [fails] at forms
      cases forms
  | uncompiled forms fails =>
      refine ⟨rfl, fun codeUnit bus compilation formed compiles => ?_⟩
      cases forms.symm.trans formed
      cases fails.symm.trans compiles
  | unstored fails forms compiled =>
      refine ⟨rfl, fun codeUnit bus compilation formed compiles => ?_⟩
      cases forms.symm.trans formed
      cases compiled.symm.trans compiles
      have large := Recompiler.lt_length_of_store_error fails
      exact large
  | @entered codeUnit bus compilation range stored forms compiles stores =>
      obtain ⟨base, cache, origin, inserts, rfl⟩ := Recompiler.store_ok stores
      have holds := CodeCache.insert?_holds inserts
      have bounded := CodeCache.insert?_bounded inserts
      refine ⟨codeUnit, bus, compilation, forms, compiles, ?_, holds.get? bounded,
        listed _ _ rfl⟩
      rcases origin with rfl | rfl
      · exact Nat.le_succ _
      · exact Nat.le_refl _

/-- Code is not overwritten while it can be reached. After any actions, the cache keeps to its
size, the ranges that were handed out since the last flush do not overlap and still hold what was
put there, all blocks that are found have such ranges, and older ranges cannot be read. Compiling
flushes at most once, and running a block leaves all code as it is. -/
theorem ledger_retained (memory : β) (settings : Settings) (actions : List (Action β)) :
    let engine := actions.foldl perform (ofMemory memory settings)
    engine.recompiler.Retains ((ofMemory memory settings).ledgerOf .empty actions) ∧
    (∀ physical configuration,
      engine.Settles physical configuration (compile physical configuration engine)) ∧
    ∀ block, (left (executeBlock block engine)).recompiler.cache = engine.recompiler.cache := by
  intro engine
  refine ⟨?_, fun physical configuration => ?_, fun block => ?_⟩
  · exact (ledgerOf_accounts actions (.ofSettings settings)).retains
  · exact (compile_compiles engine physical configuration).settles
  · exact (executeBlock_spares block engine).1.cache

/-- A guest that is started twice, and makes a system call each time. -/
def restartedRun : List (Action Ram) :=
  let start : CpuState := { CpuState.reset with pc := 0xffffffff80000000 }
  [.loadState start, .step, .loadState start, .step]

def callingMemory : Ram :=
  (Ram.ofSize 64).write 0 .word 0xc

/-- Both blocks were put at the same place, and only the later one can be read. -/
theorem restartedRun_retained :
    ((ofMemory callingMemory {}).ledgerOf .empty restartedRun).stale = [⟨0, 66, 1⟩] ∧
    (restartedRun.foldl perform (ofMemory callingMemory {})).recompiler.cache.get? ⟨0, 66, 1⟩ =
      none ∧
    ∃ code, (restartedRun.foldl perform (ofMemory callingMemory {})).recompiler.cache.get?
      ⟨0, 66, 2⟩ = some code := by
  have retains := (ledger_retained callingMemory {} restartedRun).1
  have noted : ((ofMemory callingMemory {}).ledgerOf .empty restartedRun).stale = [⟨0, 66, 1⟩] ∧
      ((ofMemory callingMemory {}).ledgerOf .empty restartedRun).current.map Deposit.range =
        [⟨0, 66, 2⟩] ∧
      (restartedRun.foldl perform (ofMemory callingMemory {})).recompiler.statistics.cacheFlushes <
        0x100000000 := by
    decide +kernel
  obtain ⟨stale, current, few⟩ := noted
  refine ⟨stale, ?_, ?_⟩
  · exact retains.stale few _ (by rw [stale]; exact List.mem_singleton_self _)
  · obtain ⟨deposit, member, same⟩ :=
      List.mem_map.mp (current ▸ List.mem_singleton_self (⟨0, 66, 2⟩ : CodeRange))
    rw [← same]
    exact ⟨_, retains.reads deposit member⟩

end Engine

end MipsRecompiler
