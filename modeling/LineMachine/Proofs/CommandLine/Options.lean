import LineMachine.CommandLine.Options
import LineMachine.Proofs.Numeral.Radix

/-!
# The order of options and arguments

A command line is a row of flags, options with a value, and arguments.  Each item has its
effect wherever it stands: a flag is set if it occurs, the last value of an option counts,
and the arguments are kept in their order.  So items may be written in another order, as
long as the arguments keep theirs and so do the values of one option; a value may follow its
option as a word of its own; and a separator may stand before the last arguments.

**Input.**  Words that spell items, after the name of the program.

**Invariant.**  While words are read, the settings are those of the items that have been
read, and so are the arguments.

**Results.**
* `Options.scan_of_spelling`: what the words of one item do.
* `Options.parse_of_spells`: what a command line is read as.
* `Options.settings_congr`: rearranged items make the same settings.
* `Options.order_of_options_is_free`: the order and the way of writing make no difference.
-/

namespace LineMachine

/-- The options without a value, other than the one that asks for help. -/
inductive Flag where
  | run
  | trace
  | dis
  | ai
  | interactive
deriving DecidableEq, Repr

def Flag.option : Flag → LongOption
  | run => .run
  | trace => .trace
  | dis => .dis
  | ai => .ai
  | interactive => .interactive

/-- The words that are arguments wherever they stand: a dash alone, and those that do not
begin with a dash, such as the empty one. -/
def IsArgument (word : String) : Prop :=
  word = "-" ∨ word.toList.head? ≠ some '-'

instance decidableIsArgument (word : String) : Decidable (IsArgument word) :=
  inferInstanceAs (Decidable (_ ∨ _))

/-- A part of a command line. -/
inductive Item where
  | flag (f : Flag)
  | maxSteps (n : Int) (hn : Numeral.writable n = true)
  | model (text : String)
  | argument (word : String) (hword : IsArgument word)
deriving DecidableEq

namespace Item

/-- An item as a single word; a value follows an equals sign. -/
def word : Item → String
  | flag f => f.option.name
  | maxSteps n _ => LongOption.maxSteps.name ++ "=" ++ Numeral.intText n
  | model text => LongOption.model.name ++ "=" ++ text
  | argument word _ => word

def maxSteps? : Item → Option Int
  | maxSteps n _ => some n
  | flag _ | model _ | argument .. => none

def model? : Item → Option String
  | model text => some text
  | flag _ | maxSteps .. | argument .. => none

def argument? : Item → Option String
  | argument word _ => some word
  | flag _ | maxSteps .. | model _ => none

/-- The ways to write an item: as a single word, or with its value as a second one. -/
inductive Spelling : Item → List String → Prop
  | whole (item : Item) : Spelling item [item.word]
  | maxSteps {n : Int} (hn : Numeral.writable n = true) :
      Spelling (.maxSteps n hn) [LongOption.maxSteps.name, Numeral.intText n]
  | model (text : String) : Spelling (.model text) [LongOption.model.name, text]

/-- The arguments among items, in their order. -/
def arguments (items : List Item) : List String :=
  items.filterMap argument?

/-- The words spell the items; a separator may stand before arguments that end the row. -/
inductive Spells : List Item → List String → Prop
  | nil : Spells [] []
  | cons {item : Item} {items : List Item} {ws words : List String} (hitem : item.Spelling ws)
      (hitems : Spells items words) : Spells (item :: items) (ws ++ words)
  | separator {items : List Item} (hitems : ∀ item, item ∈ items → item.argument?.isSome = true) :
      Spells items ("--" :: arguments items)

/-- The same items in another order, which keeps that of the arguments and that of the values
of each option. -/
structure Rearranged (items items' : List Item) : Prop where
  perm : items.Perm items'
  maxSteps : items.filterMap maxSteps? = items'.filterMap maxSteps?
  model : items.filterMap model? = items'.filterMap model?
  arguments : arguments items = arguments items'

end Item

namespace Options

/-- Whether a flag is set. -/
def flag (o : Options) : Flag → Bool
  | .run => o.run
  | .trace => o.trace
  | .dis => o.dis
  | .ai => o.ai
  | .interactive => o.interactive

/-- The settings with a flag set. -/
def set (o : Options) : Flag → Options
  | .run => { o with run := true }
  | .trace => { o with trace := true }
  | .dis => { o with dis := true }
  | .ai => { o with ai := true }
  | .interactive => { o with interactive := true }

/-- The settings after one more item. -/
def amend (o : Options) : Item → Options
  | .flag f => o.set f
  | .maxSteps n _ => { o with maxSteps := some n }
  | .model text => { o with model := some text }
  | .argument .. => o

/-- The settings that items make, one after the other. -/
def settings (items : List Item) : Options :=
  items.foldl amend initial

section Words

variable {o : Options} {words ws before : List String} {word value : String} {item : Item}

theorem findLong_name (option : LongOption) : findLong option.name = .ok option := by
  cases option <;> rfl

theorem ofString_name (option : LongOption) :
    Word.ofString option.name = .long option.name none := by
  cases option <;> rfl

theorem ofString_name_append (option : LongOption) (value : String) :
    Word.ofString (option.name ++ "=" ++ value) = .long option.name (some value) := by
  rw [Word.ofString, String.toList_append, String.toList_append]
  have hvalue : String.ofList value.toList = value := String.ofList_toList
  cases option <;> exact congrArg (fun v => Word.long _ (some v)) hvalue

theorem ofString_argument (hword : IsArgument word) : Word.ofString word = .argument := by
  rcases hword with rfl | hhead
  · rfl
  · unfold Word.ofString
    split <;> simp_all

theorem scan_flag (f : Flag) (o : Options) (before words : List String) :
    scan o before (f.option.name :: words) = scan (o.set f) before words := by
  rw [scan, ofString_name]
  dsimp only
  rw [findLong_name]
  cases f <;> rfl

theorem setValue_maxSteps {n : Int} (hn : Numeral.writable n = true) (o : Options) :
    o.setValue .maxSteps (Numeral.intText n) = .ok { o with maxSteps := some n } := by
  rw [setValue, Numeral.readMarked?_intText hn]

/-- An option with its value in one word. -/
theorem scan_joined {option : LongOption} {o' : Options} (htakes : option.takesValue = true)
    (hvalue : o.setValue option value = .ok o') (before words : List String) :
    scan o before ((option.name ++ "=" ++ value) :: words) = scan o' before words := by
  rw [scan, ofString_name_append]
  dsimp only
  rw [findLong_name]
  dsimp only
  rw [if_pos htakes, hvalue]

/-- An option with its value in the next word, whatever that is. -/
theorem scan_apart {option : LongOption} {o' : Options} (htakes : option.takesValue = true)
    (hvalue : o.setValue option value = .ok o') (before words : List String) :
    scan o before (option.name :: value :: words) = scan o' before words := by
  rw [scan, ofString_name]
  dsimp only
  rw [findLong_name]
  dsimp only
  rw [if_pos htakes, hvalue]

/-- **What the words of one item do**: it amends the settings, or it is kept with the
arguments. -/
theorem scan_of_spelling (hitem : item.Spelling ws) (o : Options) (before words : List String) :
    scan o before (ws ++ words) =
      scan (o.amend item) (item.argument?.toList ++ before) words := by
  cases hitem with
  | whole =>
      cases item with
      | flag f => exact scan_flag f o before words
      | maxSteps n hn => exact scan_joined rfl (setValue_maxSteps hn o) before words
      | model text => exact scan_joined rfl rfl before words
      | argument word hword =>
          show scan o before (word :: words) = scan o (word :: before) words
          rw [scan, ofString_argument hword]
  | maxSteps hn => exact scan_apart rfl (setValue_maxSteps hn o) before words
  | model text => exact scan_apart rfl rfl before words

end Words

section Settings

variable {items items' : List Item}

theorem flag_set (o : Options) (f g : Flag) : (o.set g).flag f = (o.flag f || decide (f = g)) := by
  cases f <;> cases g <;> simp [flag, set]

theorem flag_amend {o : Options} {item : Item} {f : Flag} :
    (o.amend item).flag f = true ↔ o.flag f = true ∨ .flag f = item := by
  cases item with
  | flag g =>
      rw [amend, flag_set, Bool.or_eq_true, decide_eq_true_eq, Item.flag.injEq]
  | maxSteps n hn => cases f <;> simp [amend, flag]
  | model text => cases f <;> simp [amend, flag]
  | argument word hword => cases f <;> simp [amend, flag]

/-- **A flag is set just if it occurs**, or was set before. -/
theorem flag_foldl_amend {o : Options} {f : Flag} :
    (items.foldl amend o).flag f = true ↔ o.flag f = true ∨ .flag f ∈ items := by
  induction items generalizing o with
  | nil => simp
  | cons item items ih =>
      rw [List.foldl_cons, ih, flag_amend, List.mem_cons, or_assoc]

/-- **The last value counts**: of a setting that each item replaces or leaves as it is, the
last replacement is there in the end. -/
theorem foldl_amend_eq_last {α : Type} {get : Options → Option α} {value? : Item → Option α}
    (hget : ∀ o item, get (o.amend item) = (value? item).or (get o)) (items : List Item)
    (o : Options) :
    get (items.foldl amend o) = (items.filterMap value?).getLast?.or (get o) := by
  induction items generalizing o with
  | nil => rfl
  | cons item items ih =>
      rw [List.foldl_cons, ih, hget, ← Option.or_assoc, List.filterMap_cons]
      cases value? item with
      | none => simp
      | some a => simp [List.getLast?_cons]

theorem maxSteps_amend (o : Options) (item : Item) :
    (o.amend item).maxSteps = item.maxSteps?.or o.maxSteps := by
  cases item with
  | flag f => cases f <;> rfl
  | maxSteps n hn => rfl
  | model text => rfl
  | argument word hword => rfl

theorem model_amend (o : Options) (item : Item) :
    (o.amend item).model = item.model?.or o.model := by
  cases item with
  | flag f => cases f <;> rfl
  | maxSteps n hn => rfl
  | model text => rfl
  | argument word hword => rfl

theorem flag_settings {f : Flag} : (settings items).flag f = true ↔ .flag f ∈ items := by
  rw [settings, flag_foldl_amend]
  cases f <;> simp [initial, flag]

theorem maxSteps_settings (items : List Item) :
    (settings items).maxSteps = (items.filterMap Item.maxSteps?).getLast? :=
  (foldl_amend_eq_last maxSteps_amend items initial).trans Option.or_none

theorem model_settings (items : List Item) :
    (settings items).model = (items.filterMap Item.model?).getLast? :=
  (foldl_amend_eq_last model_amend items initial).trans Option.or_none

/-- Settings are told by their flags and values. -/
theorem eq_of_flag {o o' : Options} (hflag : ∀ f, o.flag f = true ↔ o'.flag f = true)
    (hmaxSteps : o.maxSteps = o'.maxSteps) (hmodel : o.model = o'.model) : o = o' := by
  have heq : ∀ f, o.flag f = o'.flag f := fun f => Bool.eq_iff_iff.mpr (hflag f)
  obtain ⟨run, trace, maxSteps, dis, ai, interactive, model⟩ := o
  obtain ⟨run', trace', maxSteps', dis', ai', interactive', model'⟩ := o'
  obtain rfl : run = run' := heq .run
  obtain rfl : trace = trace' := heq .trace
  obtain rfl : dis = dis' := heq .dis
  obtain rfl : ai = ai' := heq .ai
  obtain rfl : interactive = interactive' := heq .interactive
  obtain rfl : maxSteps = maxSteps' := hmaxSteps
  obtain rfl : model = model' := hmodel
  rfl

/-- **Rearranged items make the same settings.** -/
theorem settings_congr (h : Item.Rearranged items items') : settings items = settings items' := by
  refine eq_of_flag (fun f => ?_) ?_ ?_
  · rw [flag_settings, flag_settings, h.perm.mem_iff]
  · rw [maxSteps_settings, maxSteps_settings, h.maxSteps]
  · rw [model_settings, model_settings, h.model]

end Settings

section Rows

variable {items : List Item} {words : List String}

theorem arguments_cons (item : Item) (items : List Item) :
    Item.arguments (item :: items) = item.argument?.toList ++ Item.arguments items := by
  rw [Item.arguments, List.filterMap_cons]
  cases item.argument? <;> rfl

/-- Arguments change no setting. -/
theorem foldl_amend_of_arguments (hitems : ∀ item, item ∈ items → item.argument?.isSome = true)
    (o : Options) : items.foldl amend o = o := by
  induction items with
  | nil => rfl
  | cons item items ih =>
      obtain ⟨hitem, hrest⟩ := List.forall_mem_cons.mp hitems
      cases item with
      | flag f => cases hitem
      | maxSteps n hn => cases hitem
      | model text => cases hitem
      | argument word hword => exact ih hrest

theorem scan_of_spells (h : Item.Spells items words) (o : Options) (before : List String) :
    scan o before words = .ok (items.foldl amend o, before.reverse ++ Item.arguments items) := by
  induction h generalizing o before with
  | nil => rw [scan, List.foldl_nil, Item.arguments, List.filterMap_nil, List.append_nil]
  | @cons item items ws words hitem _ ih =>
      rw [scan_of_spelling hitem, ih, List.foldl_cons, arguments_cons, List.reverse_append,
        List.append_assoc]
      cases item.argument? <;> rfl
  | separator hitems =>
      rw [foldl_amend_of_arguments hitems]
      rfl

/-- **What a command line is read as.** -/
theorem parse_of_spells (h : Item.Spells items words) :
    parse ("wl" :: words) = .ok (settings items, "wl" :: Item.arguments items) := by
  have hname : IsArgument "wl" := by
    right
    decide
  rw [parse, scan, ofString_argument hname]
  exact scan_of_spells h initial ["wl"]

theorem spells_append {last : List Item} (items : List Item) (h : Item.Spells last words) :
    Item.Spells (items ++ last) (items.map Item.word ++ words) := by
  induction items with
  | nil => exact h
  | cons item items ih =>
      show Item.Spells (item :: (items ++ last)) ([item.word] ++ (items.map Item.word ++ words))
      exact .cons (.whole item) ih

theorem spells_word (items : List Item) : Item.Spells items (items.map Item.word) := by
  have h := spells_append items .nil
  rwa [List.append_nil, List.append_nil] at h

end Rows

/-- **The order of options and arguments makes no difference.**  A command line of flags,
options with a value, and arguments is read as the flags that occur, the last value of each
option, and the arguments in their order, after the name of the program.  The same comes of
the items in another order, which keeps that of the arguments and of the values of each
option, of a value written as a word of its own, and of a separator before arguments that
end the command line. -/
theorem order_of_options_is_free (items : List Item) :
    (∃ o, parse ("wl" :: items.map Item.word) = .ok (o, "wl" :: Item.arguments items) ∧
      (∀ f, o.flag f = true ↔ .flag f ∈ items) ∧
      o.maxSteps = (items.filterMap Item.maxSteps?).getLast? ∧
      o.model = (items.filterMap Item.model?).getLast?) ∧
    (∀ items', Item.Rearranged items items' →
      parse ("wl" :: items'.map Item.word) = parse ("wl" :: items.map Item.word)) ∧
    (∀ words, Item.Spells items words →
      parse ("wl" :: words) = parse ("wl" :: items.map Item.word)) ∧
    ∀ last, (∀ item, item ∈ last → item.argument?.isSome = true) →
      parse ("wl" :: (items.map Item.word ++ "--" :: Item.arguments last)) =
        parse ("wl" :: (items ++ last).map Item.word) := by
  have hparse := fun items => parse_of_spells (spells_word items)
  refine ⟨⟨settings items, hparse items, fun f => flag_settings, maxSteps_settings items,
    model_settings items⟩, fun items' h => ?_, fun words h => ?_, fun last hlast => ?_⟩
  · rw [hparse items, hparse items', settings_congr h, h.arguments]
  · rw [hparse items, parse_of_spells h]
  · rw [hparse (items ++ last), parse_of_spells (spells_append items (.separator hlast))]

/-- Options around a file name; a value looks like an option. -/
def mixed : List Item :=
  [.flag .trace, .maxSteps 7 (by decide), .argument "p" (by decide), .model "--dis", .flag .run,
    .maxSteps (-5) (by decide), .argument "-" (by decide)]

/-- The same with the options first. -/
def optionsFirst : List Item :=
  [.model "--dis", .flag .run, .maxSteps 7 (by decide), .flag .trace, .maxSteps (-5) (by decide),
    .argument "p" (by decide), .argument "-" (by decide)]

theorem order_of_options_is_free_mixed :
    ∃ o, parse ["wl", "--trace", "--max-steps=7", "p", "--model=--dis", "--run", "--max-steps=-5",
        "-"] = .ok (o, ["wl", "p", "-"]) ∧
      parse ["wl", "--model", "--dis", "--run", "--max-steps", "7", "--trace", "--max-steps=-5",
        "--", "p", "-"] = .ok (o, ["wl", "p", "-"]) ∧
      o.dis = false ∧ o.maxSteps = some (-5) := by
  have hrearranged : Item.Rearranged mixed optionsFirst :=
    ⟨by decide, by decide, by decide, by decide⟩
  have hspells : Item.Spells optionsFirst
      ["--model", "--dis", "--run", "--max-steps", "7", "--trace", "--max-steps=-5",
        "--", "p", "-"] :=
    .cons (.model "--dis") <| .cons (.whole (.flag .run)) <| .cons (.maxSteps _) <|
      .cons (.whole (.flag .trace)) <| .cons (.whole (.maxSteps (-5) _)) <| .separator (by decide)
  obtain ⟨⟨o, hparse, hflag, hmaxSteps, _⟩, hfree, _⟩ := order_of_options_is_free mixed
  have hsame := (order_of_options_is_free optionsFirst).2.2.1 _ hspells
  have hwords : "wl" :: mixed.map Item.word =
      ["wl", "--trace", "--max-steps=7", "p", "--model=--dis", "--run", "--max-steps=-5", "-"] := by
    decide
  refine ⟨o, hwords ▸ hparse, (hsame.trans (hfree optionsFirst hrearranged)).trans hparse, ?_,
    hmaxSteps⟩
  exact Bool.eq_false_iff.mpr fun hdis => absurd ((hflag .dis).mp hdis) (by decide)

end Options
end LineMachine
