/-
# Shells

The shells that completion of commands can be set up for, and how a user does that.
-/

namespace ModelGraph

inductive Shell where
  | bash | fish | powershell | zsh
  deriving Repr, BEq, DecidableEq, Inhabited

namespace Shell

def all : List Shell := [bash, fish, powershell, zsh]

def name : Shell → String
  | bash => "bash"
  | fish => "fish"
  | powershell => "powershell"
  | zsh => "zsh"

def loadNow : String := "To load completions in your current shell session:\n\n\t"

def loadAlways : String := "\n\nTo load completions for every new session, execute once:\n\n"

def restart : String := "\n\nYou will need to start a new shell for this setup to take effect."

def instructions (program : String) : Shell → String
  | bash =>
    "Generate the autocompletion script for the bash shell.\n\n" ++
      "This script depends on the 'bash-completion' package.\n" ++
      "If it is not installed already, you can install it via your OS's package manager.\n\n" ++
      loadNow ++ "source <(" ++ program ++ " completion bash)" ++ loadAlways ++
      "#### Linux:\n\n\t" ++ program ++ " completion bash > /etc/bash_completion.d/" ++ program ++
      "\n\n#### macOS:\n\n\t" ++ program ++
      " completion bash > $(brew --prefix)/etc/bash_completion.d/" ++ program ++ restart
  | fish =>
    "Generate the autocompletion script for the fish shell.\n\n" ++
      loadNow ++ program ++ " completion fish | source" ++ loadAlways ++
      "\t" ++ program ++ " completion fish > ~/.config/fish/completions/" ++ program ++ ".fish" ++
      restart
  | powershell =>
    "Generate the autocompletion script for powershell.\n\n" ++
      loadNow ++ program ++ " completion powershell | Out-String | Invoke-Expression\n\n" ++
      "To load completions for every new session, add the output of the above command\n" ++
      "to your powershell profile."
  | zsh =>
    "Generate the autocompletion script for the zsh shell.\n\n" ++
      "If shell completion is not already enabled in your environment you will need\n" ++
      "to enable it.  You can execute the following once:\n\n" ++
      "\techo \"autoload -U compinit; compinit\" >> ~/.zshrc\n\n" ++
      loadNow ++ "source <(" ++ program ++ " completion zsh)" ++ loadAlways ++
      "#### Linux:\n\n\t" ++ program ++ " completion zsh > \"$\x7bfpath[1]\x7d/_" ++ program ++
      "\"\n\n#### macOS:\n\n\t" ++ program ++
      " completion zsh > $(brew --prefix)/share/zsh/site-functions/_" ++ program ++ restart

end Shell
end ModelGraph
