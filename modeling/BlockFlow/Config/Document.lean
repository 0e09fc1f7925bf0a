import BlockFlow.Config.Basic
import BlockFlow.Json.Decoder

/-! # Configurations as JSON

Every field is optional; a missing one has its default. -/

namespace BlockFlow

open Decoder (Field Record)

/-- The module layout as far as it is read. -/
structure BlockModules.Partial where
  directory : Option Path := none
  package : Option Path := none
  interpreter : Option String := none
  extension : Option String := none

/-- Reads a module layout. -/
def BlockModules.record : Record BlockModules.Partial BlockModules where
  title := "struct BlockModules"
  fields := [
    ⟨"directory", false, (·.directory.isSome),
      fun p d cs => do
        let (x, rest) ← Decoder.text "path string" d cs
        return ({ p with directory := some x }, rest)⟩,
    ⟨"package", false, (·.package.isSome),
      fun p d cs => do
        let (x, rest) ← Decoder.text "path string" d cs
        return ({ p with package := some x }, rest)⟩,
    ⟨"interpreter", false, (·.interpreter.isSome),
      fun p d cs => do
        let (x, rest) ← Decoder.string d cs
        return ({ p with interpreter := some x }, rest)⟩,
    ⟨"extension", false, (·.extension.isSome),
      fun p d cs => do
        let (x, rest) ← Decoder.string d cs
        return ({ p with extension := some x }, rest)⟩]
  start := {}
  finish p :=
    let default : BlockModules := {}
    .ok {
      directory := p.directory.getD default.directory
      package := p.package.getD default.package
      interpreter := p.interpreter.getD default.interpreter
      extension := p.extension.getD default.extension }

/-- A configuration as far as it is read. -/
structure Config.Partial where
  modules : Option BlockModules := none
  shell : Option String := none
  maxConcurrency : Option Nat := none

/-- Reads a configuration. -/
def Config.record : Record Config.Partial Config where
  title := "struct RuntimeConfig"
  fields := [
    ⟨"modules", false, (·.modules.isSome),
      fun p d cs => do
        let (x, rest) ← BlockModules.record.decoder d cs
        return ({ p with modules := some x }, rest)⟩,
    ⟨"shell", false, (·.shell.isSome),
      fun p d cs => do
        let (x, rest) ← Decoder.string d cs
        return ({ p with shell := some x }, rest)⟩,
    ⟨"max_concurrency", false, (·.maxConcurrency.isSome),
      fun p d cs => do
        let (x, rest) ← Decoder.count d cs
        return ({ p with maxConcurrency := some x }, rest)⟩]
  start := {}
  finish p :=
    let default : Config := {}
    .ok {
      modules := p.modules.getD default.modules
      shell := p.shell.getD default.shell
      maxConcurrency := p.maxConcurrency.getD default.maxConcurrency }

/-- The configuration in a JSON text. -/
def Config.parse (text : String) : Except JsonError Config := Decoder.run Config.record.decoder text

end BlockFlow
