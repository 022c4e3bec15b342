import Unmangle.Image.Symbols

/-!
# Reading only appends

A step of reading a file looks at nothing that was read before it. What it adds goes behind
the records and the warnings that are there, and a fault takes none of them back.
-/
namespace Unmangle

namespace ImageSymbols

/-- What was read later goes behind what was read before. -/
def append (before later : ImageSymbols) : ImageSymbols where
  records := before.records ++ later.records
  images := before.images + later.images
  lines := before.lines ++ later.lines

instance : Append ImageSymbols := ⟨append⟩

@[simp]
theorem records_append (before later : ImageSymbols) :
    (before ++ later).records = before.records ++ later.records := rfl

@[simp]
theorem images_append (before later : ImageSymbols) :
    (before ++ later).images = before.images + later.images := rfl

@[simp]
theorem lines_append (before later : ImageSymbols) :
    (before ++ later).lines = before.lines ++ later.lines := rfl

theorem append_empty (symbols : ImageSymbols) : symbols ++ ({} : ImageSymbols) = symbols := by
  change append symbols {} = symbols
  simp [append]

end ImageSymbols

namespace Load

variable {α β : Type}

theorem bind_ok {step : Load α} {next : α → Load β} {before after : ImageSymbols} {value : α}
    (run : step before = .ok value after) : (step >>= next) before = next value after := by
  change EStateM.bind step next before = _
  unfold EStateM.bind
  rw [run]

theorem bind_error {step : Load α} {next : α → Load β} {before after : ImageSymbols}
    {fault : ImageFault} (run : step before = .error fault after) :
    (step >>= next) before = .error fault after := by
  change EStateM.bind step next before = _
  unfold EStateM.bind
  rw [run]

/-- An outcome behind what was read before. -/
def behind (before : ImageSymbols) :
    EStateM.Result ImageFault ImageSymbols α → EStateM.Result ImageFault ImageSymbols α
  | .ok value after => .ok value (before ++ after)
  | .error fault after => .error fault (before ++ after)

/-- The step does the same whatever was read before it, and if it succeeds it has read
so many images. -/
structure Appends (count : Nat) (step : Load α) : Prop where
  frame : ∀ before symbols, step (before ++ symbols) = behind before (step symbols)
  counts : ∀ symbols value after, step symbols = .ok value after →
    after.images = symbols.images + count

namespace Appends

variable {count count' : Nat}

theorem pure (value : α) : Appends 0 (Pure.pure value) := by
  constructor
  · intro before symbols
    rfl
  · rintro symbols _ after ⟨⟩
    rfl

theorem throw (fault : ImageFault) : Appends count (MonadExcept.throw fault : Load α) := by
  constructor
  · intro before symbols
    rfl
  · intro symbols value after h
    cases h

/-- Two steps in a row append what each of them does. -/
theorem bind {step : Load α} {next : α → Load β} (h : Appends count step)
    (hnext : ∀ value, Appends count' (next value)) : Appends (count + count') (step >>= next) := by
  constructor
  · intro before symbols
    have first := h.frame before symbols
    cases hstep : step symbols with
    | ok value after =>
      rw [hstep] at first
      rw [bind_ok hstep, bind_ok first]
      exact (hnext value).frame before after
    | error fault after =>
      rw [hstep] at first
      rw [bind_error hstep, bind_error first]
      rfl
  · intro symbols value last hlast
    cases hstep : step symbols with
    | ok first after =>
      rw [bind_ok hstep] at hlast
      have before := h.counts symbols first after hstep
      have behind := (hnext first).counts after value last hlast
      omega
    | error fault after =>
      rw [bind_error hstep] at hlast
      cases hlast

theorem modified {change : ImageSymbols → ImageSymbols}
    (h : ∀ before symbols, change (before ++ symbols) = before ++ change symbols)
    (images : ∀ symbols, (change symbols).images = symbols.images + count) :
    Appends count (modify change) := by
  constructor
  · intro before symbols
    change EStateM.Result.ok () (change (before ++ symbols)) = .ok () (before ++ change symbols)
    rw [h]
  · rintro symbols _ after ⟨⟩
    exact images symbols

theorem ite {c : Prop} [Decidable c] {step step' : Load α} (h : Appends count step)
    (h' : Appends count step') : Appends count (if c then step else step') := by
  split
  · exact h
  · exact h'

/-- A test that may end the reading, and what comes behind it. -/
theorem guarded {c : Prop} [Decidable c] {fault : ImageFault} {next : PUnit → Load β}
    (h : ∀ tested, Appends count (next tested)) :
    Appends count (if c then MonadExcept.throw fault >>= next else next ⟨⟩) := by
  have ended : Appends (0 + count) (MonadExcept.throw fault >>= next) := (throw fault).bind h
  rw [Nat.zero_add] at ended
  exact ended.ite (h ⟨⟩)

theorem forM {ι : Type} {step : ι → Load Unit} (h : ∀ item, Appends 0 (step item))
    (items : List ι) : Appends 0 (items.forM step) := by
  induction items with
  | nil => exact pure ()
  | cons item items ih => exact (h item).bind fun _ => ih

end Appends

variable (layout : ImageLayout) (image : ByteArray)

theorem appends_readEntry (table : SymbolTable) (index : Nat) :
    Appends 0 (layout.readEntry image table index) := by
  apply Appends.modified
  · intro before symbols
    split
    · simp only [ImageSymbols.records_append, Array.push_append]
      rfl
    · simp only [ImageSymbols.lines_append, Array.push_append]
      rfl
  · intro symbols
    split
    · rfl
    · rfl

theorem appends_readTable (table : SymbolTable) : Appends 0 (layout.readTable image table) := by
  unfold ImageLayout.readTable
  apply Appends.guarded
  intro _
  exact .forM (appends_readEntry layout image table) _

theorem appends_readCommand (command : ByteArray) :
    Appends 0 (layout.readCommand image command) := by
  unfold ImageLayout.readCommand
  apply Appends.ite
  · apply Appends.guarded
    intro _
    exact appends_readTable layout image _
  · exact .pure ()

theorem appends_readCommands (count : Nat) (commands : ByteArray) :
    Appends 0 (layout.readCommands image count commands) := by
  induction count generalizing commands with
  | zero => exact .pure ()
  | succ count ih =>
    unfold ImageLayout.readCommands
    apply Appends.guarded
    intro _
    apply Appends.guarded
    intro _
    dsimp only
    split
    · exact (appends_readCommand layout image _).bind fun _ => ih _
    · exact .throw _

/-- Reading an image appends its records and counts one image. -/
theorem appends_readImage : Appends 1 (layout.readImage image) := by
  unfold ImageLayout.readImage
  apply Appends.guarded
  intro _
  dsimp only
  split
  · change Appends (0 + 1) _
    apply (appends_readCommands layout image _ _).bind
    intro _
    apply Appends.modified
    · intro before symbols
      simp only [ImageSymbols.images_append, Nat.add_assoc]
      rfl
    · intro symbols
      rfl
  · exact .throw _

/-- Reading an image that can be read adds one image to what was read before. -/
theorem appends_loadImage : Appends 1 (loadImage image) := by
  unfold loadImage
  split
  · exact .throw _
  · exact appends_readImage _ image
  · exact appends_readImage _ image
  · exact .throw _

end Load
end Unmangle
