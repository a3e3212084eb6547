import Mathlib.Data.List.Basic
import Mathlib.Tactic.Common
import TarRecipe.Build
import TarRecipe.Proofs.Archive.Packing
import TarRecipe.Proofs.Directives
import TarRecipe.Proofs.Tree.Coherence

/-! Builds of two trees that differ in the origins of files alone. -/

namespace TarRecipe

variable {R S : Bytes → Bytes → Prop} {origins₁ origins₂ : Origins} {d₁ d₂ source₁ source₂ : Dir}

def Dir.SameButOrigins (d₁ d₂ : Dir) : Prop := d₁.Related (Binding.Alike fun _ _ => True) d₂

lemma Disk.sameButOrigins_of_scan {disk₁ disk₂ : Disk} {place₁ place₂ : Pathname}
    (h₁ : disk₁.scan place₁ = .ok source₁) (h₂ : disk₂.scan place₂ = .ok source₂)
    (h : ∀ p, Option.Rel (Binding.Alike fun _ _ => True) (source₁.at? p) (source₂.at? p)) :
    source₁.SameButOrigins source₂ :=
  ⟨(built_of_scan h₁).wellFormed, (built_of_scan h₂).wellFormed, h⟩

namespace Dir.Related

lemma mono_origins (h : d₁.Related (Binding.Alike R) d₂)
    (hr : ∀ p a₁ o₁ a₂ o₂, d₁.at? p = some (.file a₁ o₁) → d₂.at? p = some (.file a₂ o₂) →
      R o₁ o₂ → S o₁ o₂) :
    d₁.Related (Binding.Alike S) d₂ := by
  refine h.mono fun p b₁ b₂ h₁ h₂ hb => ?_
  cases hb with
  | file hxy => exact .file (hr p _ _ _ _ h₁ h₂ hxy)
  | dir => exact .dir

lemma sameBytes (h : d₁.Related (Binding.Alike R) d₂)
    (hr : ∀ x y, R x y → (origins₁ x).toOption = (origins₂ y).toOption) (p : Path) :
    Dir.SameBytes origins₁ origins₂ d₁ d₂ p := by
  intro a₁ o₁ a₂ o₂ h₁ h₂
  have hp := h.at? p
  rw [h₁, h₂] at hp
  cases hp with
  | some hb =>
    cases hb with
    | file hxy => exact hr o₁ o₂ hxy

end Dir.Related

namespace Build

inductive Stage where
  | prune
  | run
  | encode
  deriving DecidableEq

def assembled (config : Config) (origins : Origins) (recipe : Recipe) (source : Dir) :
    Except (Stage × Error) Dir := do
  let pruned := source.applyIgnore origins config.ignoreFile
  let _ ← pruned.result.mapError (Stage.prune, ·)
  (recipe.run pruned.tree).mapError (Stage.run, ·)

def packed (encoder : Compression.Encoder) (config : Config) (origins : Origins) (recipe : Recipe)
    (source : Dir) : Except (Stage × Error) Bytes := do
  let d ← assembled config origins recipe source
  (encode encoder origins config d).mapError (Stage.encode, ·)

theorem archive_eq_packed (encoder : Compression.Encoder) {disk : Disk} {input text : Bytes}
    {context recipeFile : Pathname} {config : Config} {recipe : Recipe}
    {directives : List Directive} {source : Dir} (hi : readInput disk input recipeFile = .ok text)
    (hp : Recipe.parse text = .ok recipe) (hc : recipe.check.result = .ok directives)
    (hs : disk.scan context = .ok source) :
    archive encoder disk input context recipeFile config =
      (packed encoder config disk.read recipe.check.commands source).mapError Prod.snd := by
  simp only [archive, assemble, packed, assembled, hi, hp, hc, hs, bind, Except.bind]
  cases (source.applyIgnore disk.read config.ignoreFile).result with
  | error e => rfl
  | ok _ =>
    cases Recipe.run recipe.check.commands
      (source.applyIgnore disk.read config.ignoreFile).tree with
    | error e => rfl
    | ok d =>
      cases h : encode encoder disk.read config d <;> simp only [Except.mapError, h]

/-! ## Two builds -/

def SameFault (f g : Stage × Error) : Prop := f.1 = g.1 ∧ f.2.Similar g.2

lemma assembled_agree (config : Config) (recipe : Recipe)
    (h : source₁.Related (Binding.Alike R) source₂)
    (hb : ∀ p, source₁.Consulted origins₁ config.ignoreFile p →
      Dir.SameBytes origins₁ origins₂ source₁ source₂ p) :
    Agree SameFault (Dir.Related (Binding.Alike R)) (assembled config origins₁ recipe source₁)
      (assembled config origins₂ recipe source₂) := by
  have hR := Binding.uniform_alike R
  obtain ⟨hr, ht⟩ := Dir.applyIgnore_alike hR h hb
  rw [assembled, assembled]
  refine (hr.mapError fun e f he => ⟨rfl, he⟩).bind fun _ _ _ => ?_
  exact (recipe.run_related hR Directive.changes_true ht).mapError fun e f he => ⟨rfl, he ▸ .same e⟩

lemma encode_agree (encoder : Compression.Encoder) (config : Config)
    (h : d₁.Related (Binding.Alike fun x y => (origins₁ x).toOption = (origins₂ y).toOption) d₂) :
    Agree Error.Similar (· = ·) (encode encoder origins₁ config d₁)
      (encode encoder origins₂ config d₂) := by
  refine (Archive.ofTree_agree h fun _ _ => read_agree).bind fun s₁ s₂ hs => ?_
  subst hs
  exact .same _

lemma packed_agree (encoder : Compression.Encoder) (config : Config) (recipe : Recipe)
    (h : Agree SameFault (Dir.Related (Binding.Alike R)) (assembled config origins₁ recipe source₁)
      (assembled config origins₂ recipe source₂))
    (hb : ∀ d₁ d₂, assembled config origins₁ recipe source₁ = .ok d₁ →
      assembled config origins₂ recipe source₂ = .ok d₂ →
      ∀ p, Dir.SameBytes origins₁ origins₂ d₁ d₂ p) :
    Agree SameFault (· = ·) (packed encoder config origins₁ recipe source₁)
      (packed encoder config origins₂ recipe source₂) := by
  rw [packed, packed]
  generalize assembled config origins₁ recipe source₁ = r₁ at h hb
  generalize assembled config origins₂ recipe source₂ = r₂ at h hb
  cases h with
  | error he => exact .error he
  | ok hd =>
    have hs := hd.mono_origins fun p a₁ o₁ a₂ o₂ h₁ h₂ _ => hb _ _ rfl rfl p a₁ o₁ a₂ o₂ h₁ h₂
    exact (encode_agree encoder config hs).mapError fun e f he => ⟨rfl, he⟩

theorem packed_reproducible (encoder : Compression.Encoder) (config : Config) (recipe : Recipe)
    (origins₁ origins₂ : Origins) (h : source₁.SameButOrigins source₂) :
    ((∀ p, Dir.SameBytes origins₁ origins₂ source₁ source₂ p) →
      Agree SameFault (· = ·) (packed encoder config origins₁ recipe source₁)
        (packed encoder config origins₂ recipe source₂)) ∧
    ((∀ p, source₁.Consulted origins₁ config.ignoreFile p →
        Dir.SameBytes origins₁ origins₂ source₁ source₂ p) →
      Agree SameFault Dir.SameButOrigins (assembled config origins₁ recipe source₁)
        (assembled config origins₂ recipe source₂) ∧
      ((∀ d₁ d₂, assembled config origins₁ recipe source₁ = .ok d₁ →
          assembled config origins₂ recipe source₂ = .ok d₂ →
          ∀ p, Dir.SameBytes origins₁ origins₂ d₁ d₂ p) →
        Agree SameFault (· = ·) (packed encoder config origins₁ recipe source₁)
          (packed encoder config origins₂ recipe source₂))) := by
  refine ⟨fun hb => ?_, fun hb => ?_⟩
  · have hs := h.mono_origins fun p a₁ o₁ a₂ o₂ h₁ h₂ _ => hb p a₁ o₁ a₂ o₂ h₁ h₂
    have ha := assembled_agree config recipe hs fun p _ => hb p
    refine packed_agree encoder config recipe ha fun d₁ d₂ h₁ h₂ => ?_
    rw [h₁, h₂] at ha
    cases ha with
    | ok hd => exact hd.sameBytes fun _ _ hxy => hxy
  · have ha := assembled_agree config recipe h hb
    exact ⟨ha, packed_agree encoder config recipe ha⟩

/-! A file and an ignore file, at two places. -/

def context (place : UInt8) : Dir :=
  ((Dir.empty.addFile ".tarignore" [place, 0] id).tree.addFile "a" [place, 1] id).tree

def contents (place : UInt8) : Origins := fun origin =>
  if origin = [place, 0] then .ok (textBytes "b/\n") else if origin = [place, 1] then .ok [0x41]
  else .error .missing

lemma context_related : (context 1).Related
    (Binding.Alike fun x y => (contents 1 x).toOption = (contents 2 y).toOption) (context 2) := by
  have hR := Binding.uniform_alike fun x y => (contents 1 x).toOption = (contents 2 y).toOption
  have hi : (Dir.empty.addFile ".tarignore" [1, 0] id).tree.Related _
      (Dir.empty.addFile ".tarignore" [2, 0] id).tree :=
    (Dir.addFile_related hR ".tarignore" (.file rfl) (.empty hR)).tree
  exact (Dir.addFile_related hR "a" (.file rfl) hi).tree

def zipped : Config := { Config.default with compression := .zstd }

theorem packed_reproducible_moved :
    (∀ encoder, Agree SameFault (· = ·)
      (packed encoder zipped (contents 1) [⟨"COPY", ["a", "c/"]⟩] (context 1))
      (packed encoder zipped (contents 2) [⟨"COPY", ["a", "c/"]⟩] (context 2))) ∧
    Agree SameFault Dir.SameButOrigins
      (assembled zipped (contents 1) [⟨"COPY", ["a", "c/"]⟩] (context 1))
      (assembled zipped (contents 2) [⟨"COPY", ["a", "c/"]⟩] (context 2)) := by
  have hs := context_related.sameBytes fun _ _ h => h
  have h : (context 1).SameButOrigins (context 2) :=
    context_related.mono_origins fun _ _ _ _ _ _ _ _ => trivial
  have hr := fun encoder => (packed_reproducible encoder zipped [⟨"COPY", ["a", "c/"]⟩]
    (contents 1) (contents 2) h).2 fun p _ => hs p
  refine ⟨fun encoder => (hr encoder).2 fun d₁ d₂ h₁ h₂ => ?_, (hr fun _ s => .ok s).1⟩
  have hd := assembled_agree zipped [⟨"COPY", ["a", "c/"]⟩] context_related fun p _ => hs p
  rw [h₁, h₂] at hd
  cases hd with
  | ok hd => exact hd.sameBytes fun _ _ h => h

end Build

end TarRecipe
