import RegexCompiler.Main
import RegexCompiler.Proofs.Automaton.Entry
import RegexCompiler.Proofs.Automaton.Growth
import RegexCompiler.Proofs.Automaton.Idempotence
import RegexCompiler.Proofs.Automaton.Minting
import RegexCompiler.Proofs.Automaton.Shortlex
import RegexCompiler.Proofs.Automaton.Worklist
import RegexCompiler.Proofs.Command.Verdicts
import RegexCompiler.Proofs.Compiler.Exports
import RegexCompiler.Proofs.Compiler.LargerAlphabet
import RegexCompiler.Proofs.Compiler.Layout
import RegexCompiler.Proofs.Graph.Exploration
import RegexCompiler.Proofs.Graph.Refinement
import RegexCompiler.Proofs.Graph.Routes
import RegexCompiler.Proofs.Graph.Subgraph
import RegexCompiler.Proofs.Regex.Descent
import RegexCompiler.Proofs.Regex.Limits
import RegexCompiler.Proofs.Regex.Locations
import RegexCompiler.Proofs.Regex.Outline
import RegexCompiler.Proofs.Regex.Refusal
